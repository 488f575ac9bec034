import VDevLab.Kernel.Moves

/-!
# What a call can return, and the module's basic invariant

The outcomes of every operation, as far as they do not depend on the
schedule, and the invariant they rest on: the fault record is canonical, the
FIFO is within its size, and every call's locals are consistent with its
arguments.

A user copy that moves nothing is an outcome of its own. `copyResult`
reports it as `2^32 - EFAULT`, a positive number.
-/

namespace VDevLab.Kernel

/-! ## The user copy -/

theorem userCopy_copied_le (len reach : Nat) : (userCopy len reach).copied ≤ len :=
  Nat.min_le_left len reach

theorem copyResult_moved {c : UserCopy} (h : c.copied ≠ 0) : copyResult c = c.copied := by
  rw [copyResult, if_pos h, ite_self]

theorem copyResult_unmoved {len reach : Nat} (hlen : len ≠ 0)
    (h : (userCopy len reach).copied = 0) :
    copyResult (userCopy len reach) = 2 ^ 32 - EFAULT := by
  have hreach : reach = 0 := by
    have : min len reach = 0 := h
    omega
  subst hreach
  simp +decide [copyResult, userCopy, Nat.pos_of_ne_zero hlen]

theorem readToCopy_le_count (a : ReadArgs) (d : Device) (l : ReadLocals) :
    readToCopy a d l ≤ a.count := by
  unfold readToCopy
  split <;> omega

theorem readToCopy_le_length (a : ReadArgs) (d : Device) (l : ReadLocals) :
    readToCopy a d l ≤ d.fifo.length := by
  unfold readToCopy
  split <;> omega

theorem kfifoIsEmpty_false {d : Device} : kfifoIsEmpty d = false ↔ d.fifo ≠ [] := by
  simp [kfifoIsEmpty]

theorem kfifoIsFull_false {d : Device} : kfifoIsFull d = false ↔ d.fifo.length < fifoSize := by
  simp [kfifoIsFull]

theorem toNat_ne_zero {n : UInt32} (h : n ≠ 0) : n.toNat ≠ 0 :=
  fun h0 => h (UInt32.toNat_inj.mp h0)

theorem readToCopy_ne_zero {a : ReadArgs} {d : Device} (l : ReadLocals) (ha : a.count ≠ 0)
    (hd : kfifoIsEmpty d = false) : readToCopy a d l ≠ 0 := by
  have hlen : d.fifo.length ≠ 0 := by
    simpa using kfifoIsEmpty_false.mp hd
  unfold readToCopy
  split
  · next hp =>
    have := toNat_ne_zero hp
    omega
  · omega

theorem writeToCopy_ne_zero {a : WriteArgs} {d : Device} (ha : a.data ≠ [])
    (hd : kfifoIsFull d = false) : writeToCopy a d ≠ 0 := by
  have hroom := kfifoIsFull_false.mp hd
  have : a.data.length ≠ 0 := by simpa using ha
  simp only [writeToCopy, kfifoAvail]
  omega

/-- The bytes a read moves are as many as it copied. -/
theorem readDequeue_length {a : ReadArgs} {d : Device} {l : ReadLocals} {reach : Nat} :
    (d.fifo.take (userCopy (readToCopy a d l) reach).copied).length
      = (userCopy (readToCopy a d l) reach).copied := by
  have h1 := userCopy_copied_le (readToCopy a d l) reach
  have h2 := readToCopy_le_length a d l
  rw [List.length_take]
  omega

/-! ## Outcomes -/

/-- The result a call is committed to. -/
inductive Result
  | read (res : ReadResult)
  | write (ret : Int)
  | poll (res : PollResult)
  | ioctl (res : IoctlResult)
  deriving DecidableEq

def Call.result : Call → Option Result
  | .read _ ctl => ctl.committed.map .read
  | .write _ ctl => ctl.committed.map .write
  | .poll _ ctl => ctl.committed.map .poll
  | .ioctl _ ctl => ctl.committed.map .ioctl

inductive ReadOutcome (a : ReadArgs) : ReadResult → Prop
  | zero : a.count = 0 → ReadOutcome a ⟨0, []⟩
  | failed {ret} : a.count ≠ 0 → ret < 0 → ReadOutcome a ⟨ret, []⟩
  | copied {bytes} : bytes ≠ [] → bytes.length ≤ a.count →
      ReadOutcome a ⟨bytes.length, bytes⟩
  | unmoved : a.count ≠ 0 → ReadOutcome a ⟨2 ^ 32 - EFAULT, []⟩

inductive WriteOutcome (a : WriteArgs) : Int → Prop
  | zero : a.data = [] → WriteOutcome a 0
  | failed {ret} : a.data ≠ [] → ret < 0 → WriteOutcome a ret
  | copied {n : Nat} : n ≠ 0 → n ≤ a.data.length → WriteOutcome a n
  | unmoved : a.data ≠ [] → WriteOutcome a (2 ^ 32 - EFAULT)

/-- The commands that replace the fault record and wake the queues. -/
def IoctlCmd.Effective (cmd : IoctlCmd) : Prop :=
  cmd = .clearFault ∨ cmd = .reset ∨
    ∃ config stored, cmd = .setFault config ∧ validateFault config = .ok stored

inductive IoctlOutcome (cmd : IoctlCmd) : IoctlResult → Prop
  | failed {ret} : ret < 0 → IoctlOutcome cmd ⟨ret, none⟩
  | done : cmd.Effective → IoctlOutcome cmd ⟨0, none⟩
  | fetched {config} : cmd = .getFault → Canonical config → IoctlOutcome cmd ⟨0, some config⟩

/-! ## Well-formed calls -/

def ReadArgs.Wf (a : ReadArgs) : Ctl ReadPc ReadResult → Prop
  | .run .start => True
  | .run (.delay _ ret _) => a.count ≠ 0 ∧ ret = 0
  | .run (.wake res) => ∃ bytes, bytes ≠ [] ∧ bytes.length ≤ a.count ∧ res = ⟨bytes.length, bytes⟩
  | .run _ => a.count ≠ 0
  | .exit res => ReadOutcome a res
  | .returned res => ReadOutcome a res

def WriteArgs.Wf (a : WriteArgs) : Ctl WritePc Int → Prop
  | .run .start => True
  | .run (.wake ret) => ∃ n : Nat, n ≠ 0 ∧ n ≤ a.data.length ∧ ret = n
  | .run _ => a.data ≠ []
  | .exit ret => WriteOutcome a ret
  | .returned ret => WriteOutcome a ret

def IoctlCmd.Wf (cmd : IoctlCmd) : Ctl IoctlPc IoctlResult → Prop
  | .run .start => True
  | .run (.store stored) => ∃ config, cmd = .setFault config ∧ validateFault config = .ok stored
  | .run (.copyOut config) => cmd = .getFault ∧ Canonical config
  | .run .wakeRead => cmd.Effective
  | .run .wakeWrite => cmd.Effective
  | .exit res => IoctlOutcome cmd res
  | .returned res => IoctlOutcome cmd res

def Call.Wf : Call → Prop
  | .read a ctl => a.Wf ctl
  | .write a ctl => a.Wf ctl
  | .poll _ _ => True
  | .ioctl cmd ctl => cmd.Wf ctl

theorem Op.call_wf (op : Op) : op.call.Wf := by
  cases op <;> trivial

/-- The sample's return value is zero or an errno, and zero when a delay is
to be slept. -/
theorem applyReadFault_ret (fault : FaultConfig) (l : ReadLocals) :
    ((applyReadFault fault l).ret ≠ 0 → (applyReadFault fault l).ret < 0) ∧
    ((applyReadFault fault l).delayMs ≠ 0 → (applyReadFault fault l).ret = 0) := by
  unfold applyReadFault
  split_ifs <;> simp +decide

theorem validateFault_error {config : FaultConfig} {e : Int}
    (h : validateFault config = .error e) : e = -EINVAL := by
  unfold validateFault at h
  split_ifs at h <;> cases h <;> rfl

theorem ReadMove.wf {a : ReadArgs} {d : Device} {ch : Choice} {woken : Bool} {pc : ReadPc}
    {e : Effect (Ctl ReadPc ReadResult)} (h : ReadMove a d ch woken pc e)
    (hc : a.Wf (.run pc)) : a.Wf e.ctl := by
  cases h with
  | zero h0 => exact .zero h0
  | enter h0 => exact h0
  | @sampleDelay l s hs hd =>
    subst hs
    exact ⟨hc, (applyReadFault_ret _ _).2 hd⟩
  | @sampleFail l s hs hd hr =>
    subst hs
    exact .failed hc ((applyReadFault_ret _ _).1 hr)
  | samplePass => exact hc
  | delayInterrupted => exact .failed hc.1 (by decide)
  | delayFail hr => exact absurd hc.2 hr
  | delayPass => exact hc.1
  | lockInterrupted => exact .failed hc (by decide)
  | again => exact .failed hc (by decide)
  | block => exact hc
  | @dequeue l c _ _ hcopy hmoved =>
    subst hcopy
    -- the bytes that left the FIFO are the ones `wake` will report
    refine ⟨d.fifo.take (userCopy (readToCopy a d l) ch.reach).copied, ?_, ?_, ?_⟩
    · rw [ne_eq, ← List.length_eq_zero_iff, readDequeue_length]
      exact hmoved
    · rw [readDequeue_length]
      exact (userCopy_copied_le _ _).trans (readToCopy_le_count a d l)
    · rw [readDequeue, copyResult_moved hmoved, readDequeue_length]
  | @copyFault l c _ he hcopy hmoved =>
    subst hcopy
    -- nothing was moved: the unsigned conversion of `-EFAULT`
    show ReadOutcome a ⟨_, _⟩
    rw [copyResult_unmoved (readToCopy_ne_zero l hc he) hmoved, hmoved]
    exact .unmoved hc
  | queue => exact hc
  | fifoEmpty => exact hc
  | fifoReady => exact hc
  | faultReady => exact hc
  | waitInterrupted => exact .failed hc (by decide)
  | sleep => exact hc
  | resume => exact hc
  | wake =>
    obtain ⟨bytes, hne, hle, rfl⟩ := hc
    exact .copied hne hle

theorem WriteMove.wf {a : WriteArgs} {d : Device} {ch : Choice} {woken : Bool} {pc : WritePc}
    {e : Effect (Ctl WritePc Int)} (h : WriteMove a d ch woken pc e)
    (hc : a.Wf (.run pc)) : a.Wf e.ctl := by
  cases h with
  | zero h0 => exact .zero h0
  | enter h0 => exact h0
  | gone => exact .failed hc (by decide)
  | tryNow => exact hc
  | wait => exact hc
  | again => exact .failed hc (by decide)
  | room => exact hc
  | queue => exact hc
  | fifoFull => exact hc
  | fifoReady => exact hc
  | faultReady => exact hc
  | waitInterrupted => exact .failed hc (by decide)
  | sleep => exact hc
  | resume => exact hc
  | restart => exact hc
  | toLock => exact hc
  | lockInterrupted => exact .failed hc (by decide)
  | lockedAgain => exact .failed hc (by decide)
  | lockedRestart => exact hc
  | @enqueue c _ _ hcopy hmoved =>
    subst hcopy
    refine ⟨_, hmoved, ?_, copyResult_moved hmoved⟩
    exact (userCopy_copied_le _ _).trans (Nat.min_le_left _ _)
  | @copyFault c _ hfull hcopy hmoved =>
    subst hcopy
    show WriteOutcome a _
    rw [copyResult_unmoved (writeToCopy_ne_zero hc hfull) hmoved]
    exact .unmoved hc
  | wake =>
    obtain ⟨n, hne, hle, rfl⟩ := hc
    exact .copied hne hle

theorem IoctlMove.wf {cmd : IoctlCmd} {d : Device} {woken : Bool} {pc : IoctlPc}
    {e : Effect (Ctl IoctlPc IoctlResult)} (h : IoctlMove cmd d woken pc e)
    (hd : cmd = .getFault → pc = .start → Canonical d.fault) (hc : cmd.Wf (.run pc)) :
    cmd.Wf e.ctl := by
  cases h with
  | setUnreadable => exact .failed (by decide)
  | setRefused _ hv => rw [validateFault_error hv]; exact .failed (by decide)
  | setAccepted hcmd hv => exact ⟨_, hcmd, hv⟩
  | get hcmd => exact ⟨hcmd, hd hcmd rfl⟩
  | clear hcmd => exact .inl hcmd
  | reset hcmd => exact .inr (.inl hcmd)
  | other => exact .failed (by decide)
  | store =>
    obtain ⟨config, hcmd, hv⟩ := hc
    exact .inr (.inr ⟨config, _, hcmd, hv⟩)
  | outUnwritable => exact .failed (by decide)
  | out => exact .fetched hc.1 hc.2
  | wakeRead => exact hc
  | wakeWrite => exact .done hc

theorem CallMove.wf {d : Device} {ch : Choice} {woken : Bool} {c : Call} {e : Effect Call}
    (h : CallMove d ch woken c e) (hd : Canonical d.fault) (hc : c.Wf) : e.ctl.Wf := by
  cases h with
  | read hm => exact hm.wf hc
  | write hm => exact hm.wf hc
  | poll => trivial
  | ioctl hm => exact hm.wf (fun _ _ => hd) hc
  | readReturn => exact hc
  | writeReturn => exact hc
  | pollReturn => trivial
  | ioctlReturn => exact hc

/-! ## What a move does to the device -/

/-- The five ways a move treats the device. Only the first keeps it; the
other four name the code that ran. -/
inductive DeviceMove (d : Device) (ch : Choice) : Call → Effect Call → Prop
  | same {c e} : e.dev = d → DeviceMove d ch c e
  | sample {a l e} : e.dev = d.sampled l →
      DeviceMove d ch (.read a (.run (.fault l))) e
  | dequeue {a l woken n} : ch.signal = false → kfifoIsEmpty d = false →
      n = (userCopy (readToCopy a d l) ch.reach).copied → n ≠ 0 →
      DeviceMove d ch (.read a (.run (.lock l)))
        ⟨{ d with fifo := d.fifo.drop n }, none, woken, .read a (.run (.wake ⟨n, d.fifo.take n⟩))⟩
  | enqueue {a woken n} : ch.signal = false → kfifoIsFull d = false →
      n = (userCopy (writeToCopy a d) ch.reach).copied → n ≠ 0 →
      DeviceMove d ch (.write a (.run .lock))
        ⟨{ d with fifo := d.fifo ++ a.data.take n }, none, woken, .write a (.run (.wake n))⟩
  | control {cmd pc woken config fifo} :
      (pc = .store config ∧ fifo = d.fifo) ∨
      (pc = .start ∧ cmd = .clearFault ∧ config = clearFaultLocked ∧ fifo = d.fifo) ∨
      (pc = .start ∧ cmd = .reset ∧ config = clearFaultLocked ∧ fifo = []) →
      DeviceMove d ch (.ioctl cmd (.run pc))
        ⟨⟨fifo, config⟩, none, woken, .ioctl cmd (.run .wakeRead)⟩

theorem ReadMove.device {a : ReadArgs} {d : Device} {ch : Choice} {woken : Bool} {pc : ReadPc}
    {e : Effect (Ctl ReadPc ReadResult)} (h : ReadMove a d ch woken pc e) :
    DeviceMove d ch (.read a (.run pc)) (e.map (.read a)) := by
  cases h with
  | sampleDelay => exact .sample rfl
  | sampleFail => exact .sample rfl
  | samplePass => exact .sample rfl
  | @dequeue l c hs he hcopy hmoved =>
    subst hcopy
    simp only [readDequeue, Effect.map, copyResult_moved hmoved]
    exact .dequeue hs he rfl hmoved
  | copyFault _ _ _ hmoved => exact .same (by simp [readDequeue, Effect.map, hmoved])
  | zero => exact .same rfl
  | enter => exact .same rfl
  | delayInterrupted => exact .same rfl
  | delayFail => exact .same rfl
  | delayPass => exact .same rfl
  | lockInterrupted => exact .same rfl
  | again => exact .same rfl
  | block => exact .same rfl
  | queue => exact .same rfl
  | fifoEmpty => exact .same rfl
  | fifoReady => exact .same rfl
  | faultReady => exact .same rfl
  | waitInterrupted => exact .same rfl
  | sleep => exact .same rfl
  | resume => exact .same rfl
  | wake => exact .same rfl

theorem WriteMove.device {a : WriteArgs} {d : Device} {ch : Choice} {woken : Bool} {pc : WritePc}
    {e : Effect (Ctl WritePc Int)} (h : WriteMove a d ch woken pc e) :
    DeviceMove d ch (.write a (.run pc)) (e.map (.write a)) := by
  cases h with
  | @enqueue c hs hf hcopy hmoved =>
    subst hcopy
    simp only [writeEnqueue, Effect.map, copyResult_moved hmoved]
    exact .enqueue hs hf rfl hmoved
  | copyFault _ _ _ hmoved => exact .same (by simp [writeEnqueue, Effect.map, hmoved])
  | _ => exact .same rfl

theorem IoctlMove.device {cmd : IoctlCmd} {d : Device} (ch : Choice) {woken : Bool} {pc : IoctlPc}
    {e : Effect (Ctl IoctlPc IoctlResult)} (h : IoctlMove cmd d woken pc e) :
    DeviceMove d ch (.ioctl cmd (.run pc)) (e.map (.ioctl cmd)) := by
  cases h with
  | store => exact .control (.inl ⟨rfl, rfl⟩)
  | clear hcmd => exact .control (.inr (.inl ⟨rfl, hcmd, rfl, rfl⟩))
  | reset hcmd => exact .control (.inr (.inr ⟨rfl, hcmd, rfl, rfl⟩))
  | _ => exact .same rfl

theorem CallMove.device {d : Device} {ch : Choice} {woken : Bool} {c : Call} {e : Effect Call}
    (h : CallMove d ch woken c e) : DeviceMove d ch c e := by
  cases h with
  | read hm => exact hm.device
  | write hm => exact hm.device
  | poll hm => cases hm <;> exact .same rfl
  | ioctl hm => exact hm.device ch
  | readReturn => exact .same rfl
  | writeReturn => exact .same rfl
  | pollReturn => exact .same rfl
  | ioctlReturn => exact .same rfl

/-! ## What a move does to the fault record -/

/-- The next step of the call replaces the fault record. -/
def Call.replacesFault : Call → Bool
  | .ioctl _ (.run (.store _)) => true
  | .ioctl .clearFault (.run .start) => true
  | .ioctl .reset (.run .start) => true
  | _ => false

/-- The next step of the call samples the fault. -/
def Call.samplesFault : Call → Bool
  | .read _ (.run (.fault _)) => true
  | _ => false

theorem ReadMove.sampled {a : ReadArgs} {d : Device} {ch : Choice} {woken : Bool} {l : ReadLocals}
    {e : Effect (Ctl ReadPc ReadResult)} (h : ReadMove a d ch woken (.fault l) e) :
    e.dev = d.sampled l := by
  cases h <;> rfl

/-- What a move does to the fault record: a sampling read under EIO takes one
occurrence; every other move keeps the record or replaces it. -/
theorem CallMove.fault_cases {d : Device} {ch : Choice} {woken : Bool} {c : Call} {e : Effect Call}
    (h : CallMove d ch woken c e) (hd : Canonical d.fault) :
    (c.samplesFault = true ∧ d.fault.type = faultEio ∧ d.fault.repeats ≠ 0 ∧
      e.dev.fault = takeOccurrence d.fault) ∨
    (¬ (c.samplesFault = true ∧ d.fault.type = faultEio) ∧
      (e.dev.fault = d.fault ∨ c.replacesFault = true)) := by
  by_cases hs : c.samplesFault = true
  · cases h with
    | @read a pc e hm =>
      cases pc with
      | fault l =>
        have he : e.dev.fault = (applyReadFault d.fault l).fault := by rw [hm.sampled]; rfl
        -- the sample changes the record only under EIO
        rcases applyReadFault_cases hd l with ⟨ht, hr, heq⟩ | ⟨hne, hsame, -⟩
        · exact .inl ⟨hs, ht, hr, by rw [Effect.map, he, heq]⟩
        · exact .inr ⟨fun h => hne h.2, .inl (he.trans hsame)⟩
      | _ => simp [Call.samplesFault] at hs
    | _ => simp [Call.samplesFault] at hs
  · refine .inr ⟨fun h => hs h.1, ?_⟩
    cases h.device with
    | same he => exact .inl (by rw [he])
    | sample => exact absurd rfl hs
    | dequeue => exact .inl rfl
    | enqueue => exact .inl rfl
    | control hpc =>
      rcases hpc with ⟨rfl, -⟩ | ⟨rfl, rfl, -, -⟩ | ⟨rfl, rfl, -, -⟩ <;> exact .inr rfl

/-! ## The invariant of the module -/

structure Sys.Inv (s : Sys) : Prop where
  fault : Canonical s.dev.fault
  fifo : s.dev.fifo.length ≤ fifoSize
  calls : ∀ c ∈ s.callers, c.call.Wf

theorem DeviceMove.fault {d : Device} {ch : Choice} {c : Call} {e : Effect Call}
    (h : DeviceMove d ch c e) (hd : Canonical d.fault) (hc : c.Wf) : Canonical e.dev.fault := by
  cases h with
  | same he => rw [he]; exact hd
  | sample he => rw [he]; exact hd.applyReadFault _
  | dequeue => exact hd
  | enqueue => exact hd
  | control hpc =>
    rcases hpc with ⟨rfl, -⟩ | ⟨-, -, rfl, -⟩ | ⟨-, -, rfl, -⟩
    · obtain ⟨config, -, hv⟩ := hc
      exact (validateFault_canonical hv).1
    · exact .none
    · exact .none

theorem DeviceMove.fifo {d : Device} {ch : Choice} {c : Call} {e : Effect Call}
    (h : DeviceMove d ch c e) (hd : d.fifo.length ≤ fifoSize) :
    e.dev.fifo.length ≤ fifoSize := by
  cases h with
  | same he => rw [he]; exact hd
  | sample he => rw [he]; exact hd
  | dequeue => simp only [List.length_drop]; omega
  | @enqueue a _ n _ hfull hn =>
    have hle : n ≤ writeToCopy a d := hn ▸ userCopy_copied_le _ _
    simp only [writeToCopy, kfifoAvail] at hle
    simp only [List.length_append, List.length_take]
    omega
  | control hpc =>
    rcases hpc with ⟨-, rfl⟩ | ⟨-, -, -, rfl⟩ | ⟨-, -, -, rfl⟩
    · exact hd
    · exact hd
    · exact Nat.zero_le _

theorem Sys.mem_after {s : Sys} {i : Nat} {e : Effect Call} {c : Caller}
    (h : c ∈ (s.after i e).callers) : c.call = e.ctl ∨ ∃ c' ∈ s.callers, c.call = c'.call := by
  obtain ⟨c', hc', rfl⟩ := List.mem_map.mp h
  rw [Caller.wakeUp_call]
  rcases List.mem_or_eq_of_mem_set hc' with hc' | rfl
  · exact .inr ⟨c', hc', rfl⟩
  · exact .inl rfl

theorem Sys.Inv.step {s t : Sys} {l : Label} (hi : s.Inv) (h : s.step l = some t) : t.Inv := by
  rcases Sys.step_cases h with ⟨op, -, rfl⟩ | ⟨i, ch, c, e, -, hc, hm, rfl⟩
  · refine ⟨hi.fault, hi.fifo, fun c hc => ?_⟩
    rcases List.mem_append.mp hc with hc | hc
    · exact hi.calls c hc
    · cases List.mem_singleton.mp hc
      exact op.call_wf
  · have hwf := hi.calls c (List.mem_of_getElem? hc)
    refine ⟨hm.device.fault hi.fault hwf, hm.device.fifo hi.fifo, fun c' hc' => ?_⟩
    rcases Sys.mem_after hc' with heq | ⟨c'', hmem, heq⟩
    · rw [heq]; exact hm.wf hi.fault hwf
    · rw [heq]; exact hi.calls c'' hmem

theorem Sys.fresh_inv : Sys.fresh.Inv :=
  ⟨.none, Nat.zero_le _, by simp [Sys.fresh]⟩

theorem machine_inv {tr : List (Move Sys Label)} {s : Sys} (h : machine.Run tr s) : s.Inv :=
  h.invariant (fun _ hs => hs ▸ Sys.fresh_inv) (fun _ _ _ hi hl => hi.step hl)

/-- A recorded step is a move of the caller it names. -/
theorem machine_move {tr : List (Move Sys Label)} {s : Sys} (h : machine.Run tr s)
    {m : Move Sys Label} (hm : m ∈ tr) {i : Nat} {ch : Choice} (hl : m.label = .step i ch) :
    ∃ c e, m.pre.callers[i]? = some c ∧ CallMove m.pre.dev ch c.woken c.call e ∧
      m.post = m.pre.after i e := by
  have hstep : m.pre.step m.label = some m.post := (h.move_step hm).1
  rcases Sys.step_cases hstep with ⟨op, hop, -⟩ | ⟨j, ch', c, e, hj, hc, hmove, hpost⟩
  · cases hl.symm.trans hop
  · cases hl.symm.trans hj
    exact ⟨c, e, hc, hmove, hpost⟩

/-! ## Facts that stay with a call -/

section Persists

variable {Q : Call → Prop}
  (hQ : ∀ d ch woken c e, CallMove d ch woken c e → Q c → Q e.ctl)

include hQ

theorem Sys.step_persists {s t : Sys} {l : Label} (h : s.step l = some t) {i : Nat} {c : Caller}
    (hc : s.callers[i]? = some c) (hq : Q c.call) :
    ∃ c', t.callers[i]? = some c' ∧ Q c'.call := by
  rcases Sys.step_cases h with ⟨op, -, rfl⟩ | ⟨j, ch, b, e, -, hb, hm, rfl⟩
  · exact ⟨c, Sys.getElem?_invoked op hc, hq⟩
  · by_cases hij : j = i
    · subst hij
      cases hb.symm.trans hc
      exact ⟨_, Sys.after_getElem?_self hb e, by
        rw [Caller.wakeUp_call]; exact hQ _ _ _ _ _ hm hq⟩
    · refine ⟨c.wakeUp e.wake, ?_, by rw [Caller.wakeUp_call]; exact hq⟩
      rw [Sys.after_getElem? hb, if_neg hij, hc]
      rfl

/-- What held of a call after some move of a run holds of it at the end. -/
theorem machine_persists {tr : List (Move Sys Label)} {s : Sys} (h : machine.Run tr s) :
    ∀ m ∈ tr, ∀ (i : Nat) (c : Caller), m.post.callers[i]? = some c → Q c.call →
      ∃ c' : Caller, s.callers[i]? = some c' ∧ Q c'.call := by
  induction h with
  | start => simp
  | snoc _ hl ih =>
    intro m hm i c hc hq
    rcases List.mem_append.mp hm with hm | hm
    · obtain ⟨c', hc', hq'⟩ := ih m hm i c hc hq
      exact Sys.step_persists hQ hl hc' hq'
    · cases List.mem_singleton.mp hm
      exact ⟨c, hc, hq⟩

end Persists

end VDevLab.Kernel
