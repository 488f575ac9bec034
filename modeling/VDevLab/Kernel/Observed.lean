import VDevLab.Kernel.Barrier

/-!
# What decides the length of a read

The limit of a partial read is kept in a local variable of `vdevlab_read`
that lives outside its loop, while the fault is checked again in every
iteration. A check that sees `PARTIAL_READ` overwrites the variable; a check
that sees anything else leaves it alone. So a read is limited by the most
recent limit that it saw, even when its last check saw none.
-/

namespace VDevLab.Kernel

/-! ## The history of a call -/

/-- A property of a call and of the steps it made holds in every state of a
run, if it holds of new calls and every step keeps it. -/
theorem machine_histories {Q : List OwnStep → Call → Prop} (hstart : ∀ op : Op, Q [] op.call)
    (hstep : ∀ steps d ch woken c e, Canonical d.fault → d.fifo.length ≤ fifoSize → c.Wf →
      CallMove d ch woken c e → Q steps c → Q (steps ++ [⟨d, ch, woken, c, e.dev, e.ctl⟩]) e.ctl)
    {tr : List (Move Sys Label)} {s : Sys} (h : machine.Run tr s) :
    (∀ i, s.callers.length ≤ i → ownSteps i tr = []) ∧
      ∀ i c, s.callAt i = some c → Q (ownSteps i tr) c := by
  induction h with
  | start hs =>
    cases hs
    exact ⟨fun _ _ => rfl, fun i c hc => by cases hc⟩
  | @snoc tr s l t hr hl ih =>
    obtain ⟨hnone, hold⟩ := ih
    have hinv := machine_inv hr
    rcases Sys.step_cases hl with ⟨op, rfl, rfl⟩ | ⟨k, ch, c, e, rfl, hc, hm, rfl⟩
    · simp only [ownSteps_invoke]
      refine ⟨?_, ?_⟩
      · intro i hi
        apply hnone
        simp only [Sys.invoked, List.length_append, List.length_singleton] at hi
        omega
      · intro i c hi
        rw [Sys.callAt_invoked] at hi
        split at hi
        · next hlast =>
          cases hi
          rw [hnone i (by omega)]
          exact hstart op
        · exact hold i c hi
    · have hk : k < s.callers.length := (List.getElem?_eq_some_iff.mp hc).1
      have hlen : (s.after k e).callers.length = s.callers.length := by
        simp [Sys.after]
      refine ⟨?_, ?_⟩
      · intro i hi
        rw [hlen] at hi
        rw [ownSteps_other (by omega)]
        exact hnone i hi
      · intro i b hi
        rw [Sys.callAt_after hc] at hi
        by_cases hki : k = i
        · subst hki
          rw [if_pos rfl] at hi
          cases hi
          rw [ownSteps_self hc]
          exact hstep _ _ _ _ _ _ hinv.fault hinv.fifo (hinv.calls c (List.mem_of_getElem? hc)) hm
            (hold k c.call (Sys.callAt_of hc))
        · rw [if_neg hki] at hi
          rw [ownSteps_other hki]
          exact hold i b hi

/-! ## The checks of a read -/

/-- The record that a fault check sees. -/
def OwnStep.check (st : OwnStep) : Option FaultConfig :=
  match st.call with
  | .read _ (.run (.fault _)) => some st.dev.fault
  | _ => none

def faultChecks (steps : List OwnStep) : List FaultConfig := steps.filterMap OwnStep.check

/-- The limit that a record sets for reads. -/
def FaultConfig.limit (fault : FaultConfig) : Option Nat :=
  if fault.type = faultPartialRead then some fault.partialReadBytes.toNat else none

/-- The limit that the last check saw; none when it saw another fault. -/
def observedCap (steps : List OwnStep) : Option Nat :=
  (faultChecks steps).getLast?.bind FaultConfig.limit

/-- The most recent limit that any check saw. -/
def recentCap (steps : List OwnStep) : Option Nat :=
  ((faultChecks steps).filterMap FaultConfig.limit).getLast?

def capAt (n : Nat) : Option Nat → Nat
  | none => n
  | some b => min n b

/-- `min(count, FIFO length, cap)` with the cap that was last observed. -/
def decidedLength (a : ReadArgs) (d : Device) (steps : List OwnStep) : Nat :=
  capAt (min a.count d.fifo.length) (observedCap steps)

/-- An older limit cuts the read although the last check saw no limit. -/
def StaleCap (a : ReadArgs) (d : Device) (steps : List OwnStep) : Prop :=
  observedCap steps = none ∧ ∃ b, recentCap steps = some b ∧ b < min a.count d.fifo.length

theorem observedCap_recent {steps : List OwnStep} {b : Nat} (h : observedCap steps = some b) :
    recentCap steps = some b := by
  obtain ⟨fault, hlast, hlimit⟩ := Option.bind_eq_some_iff.mp h
  obtain ⟨checks, hchecks⟩ := List.getLast?_eq_some_iff.mp hlast
  rw [recentCap, hchecks, List.filterMap_append]
  simp [hlimit]

theorem recentCap_skip {steps : List OwnStep} {st : OwnStep} (h : st.check = none) :
    recentCap (steps ++ [st]) = recentCap steps := by
  simp [recentCap, faultChecks, h]

theorem recentCap_check {steps : List OwnStep} {st : OwnStep} {fault : FaultConfig}
    (h : st.check = some fault) :
    recentCap (steps ++ [st]) = fault.limit.or (recentCap steps) := by
  cases hlimit : fault.limit <;> simp [recentCap, faultChecks, h, hlimit]

/-! ## The local variable -/

/-- `partial_read_bytes` of a call that made these steps. -/
structure Remembers (steps : List OwnStep) (l : ReadLocals) : Prop where
  bytes : l.partialReadBytes.toNat = (recentCap steps).getD 0
  positive : ∀ b, recentCap steps = some b → b ≠ 0

theorem Remembers.skip {steps : List OwnStep} {l : ReadLocals} (h : Remembers steps l)
    {st : OwnStep} (hst : st.check = none) : Remembers (steps ++ [st]) l := by
  refine ⟨?_, ?_⟩
  · rw [recentCap_skip hst]
    exact h.bytes
  · rw [recentCap_skip hst]
    exact h.positive

/-- A check keeps the variable or stores the limit it saw. -/
theorem applyReadFault_limit (fault : FaultConfig) (l : ReadLocals) :
    (applyReadFault fault l).locals.partialReadBytes.toNat =
      fault.limit.getD l.partialReadBytes.toNat := by
  by_cases ht : fault.type = faultPartialRead
  · rw [applyReadFault_partialRead ht, FaultConfig.limit, if_pos ht]
    rfl
  · rw [FaultConfig.limit, if_neg ht]
    unfold applyReadFault
    split_ifs <;> rfl

theorem Canonical.limit_ne_zero {fault : FaultConfig} (h : Canonical fault) {b : Nat}
    (hb : fault.limit = some b) : b ≠ 0 := by
  unfold FaultConfig.limit at hb
  split at hb
  · next ht =>
    cases hb
    cases h with
    | partialRead hpos => exact toNat_ne_zero hpos
    | none => exact absurd (show faultNone = faultPartialRead from ht) (by decide)
    | eio => exact absurd (show faultEio = faultPartialRead from ht) (by decide)
    | delay => exact absurd (show faultDelay = faultPartialRead from ht) (by decide)
    | disconnect => exact absurd (show faultDisconnect = faultPartialRead from ht) (by decide)
  · cases hb

theorem Remembers.check {steps : List OwnStep} {l : ReadLocals} (h : Remembers steps l)
    {st : OwnStep} (hfault : Canonical st.dev.fault) (hst : st.check = some st.dev.fault) :
    Remembers (steps ++ [st]) (applyReadFault st.dev.fault l).locals := by
  have hlimit := applyReadFault_limit st.dev.fault l
  cases hl : st.dev.fault.limit with
  | none =>
    rw [hl] at hlimit
    refine ⟨?_, ?_⟩
    · rw [recentCap_check hst, hl, hlimit]
      exact h.bytes
    · rw [recentCap_check hst, hl]
      exact h.positive
  | some b =>
    rw [hl] at hlimit
    refine ⟨?_, ?_⟩
    · rw [recentCap_check hst, hl, hlimit]
      rfl
    · rw [recentCap_check hst, hl]
      intro b' hb'
      cases hb'
      exact hfault.limit_ne_zero hl

/-- The source's two branches for `to_copy` are one cap. -/
theorem Remembers.readToCopy {steps : List OwnStep} {l : ReadLocals} (h : Remembers steps l)
    (a : ReadArgs) (d : Device) :
    readToCopy a d l = capAt (min a.count d.fifo.length) (recentCap steps) := by
  have hbytes := h.bytes
  unfold Kernel.readToCopy
  cases hrecent : recentCap steps with
  | none =>
    rw [hrecent] at hbytes
    have h0 : l.partialReadBytes = 0 := UInt32.toNat_inj.mp hbytes
    rw [if_neg (not_not.mpr h0)]
    rfl
  | some b =>
    rw [hrecent] at hbytes
    have hpos := h.positive b hrecent
    have hne : l.partialReadBytes ≠ 0 := by
      intro h0
      rw [h0] at hbytes
      exact hpos hbytes.symm
    rw [if_pos hne, hbytes]
    rfl

/-! ## The dequeue -/

/-- The step takes bytes out of the FIFO for a call that then returns `res`. -/
structure OwnStep.DequeuesFor (st : OwnStep) (a : ReadArgs) (res : ReadResult) : Prop where
  locked : ∃ l, st.call = .read a (.run (.lock l))
  ready : st.ch.signal = false ∧ kfifoIsEmpty st.dev = false
  result : st.next = .read a (.run (.wake res)) ∨ st.next = .read a (.exit res)

/-- The result is decided by the last check exactly when the copy was not cut
short and no older limit was. -/
def DecidedByLast (a : ReadArgs) (steps : List OwnStep) (res : ReadResult) : Prop :=
  ∃ before st after, steps = before ++ st :: after ∧ st.DequeuesFor a res ∧
    (res.ret = decidedLength a st.dev before ↔
      decidedLength a st.dev before ≤ st.ch.reach ∧ ¬ StaleCap a st.dev before)

/-- The older limit makes a difference exactly when it is stale. -/
theorem capAt_recent_eq_iff (a : ReadArgs) (d : Device) (steps : List OwnStep) :
    capAt (min a.count d.fifo.length) (recentCap steps) ≤ decidedLength a d steps ∧
    (capAt (min a.count d.fifo.length) (recentCap steps) = decidedLength a d steps ↔
      ¬ StaleCap a d steps) := by
  unfold decidedLength StaleCap
  cases hobserved : observedCap steps with
  | some b =>
    rw [observedCap_recent hobserved]
    simp
  | none =>
    cases hrecent : recentCap steps with
    | none => simp [capAt]
    | some b =>
      simp only [capAt, Option.some.injEq, exists_eq_left', true_and]
      omega

/-- What the locked section of a read returns, against the last check. -/
theorem Remembers.copyResult_iff {steps : List OwnStep} {l : ReadLocals} (h : Remembers steps l)
    {a : ReadArgs} {d : Device} (ha : a.count ≠ 0) (hd : kfifoIsEmpty d = false)
    (hsize : d.fifo.length ≤ fifoSize) (reach : Nat) :
    copyResult (userCopy (Kernel.readToCopy a d l) reach) = decidedLength a d steps ↔
      decidedLength a d steps ≤ reach ∧ ¬ StaleCap a d steps := by
  obtain ⟨hle, hstale⟩ := capAt_recent_eq_iff a d steps
  rw [← h.readToCopy] at hle hstale
  have hpos := readToCopy_ne_zero l ha hd
  have hbound : decidedLength a d steps ≤ fifoSize := by
    have hcap : decidedLength a d steps ≤ min a.count d.fifo.length := by
      unfold decidedLength
      cases observedCap steps <;> simp [capAt]
    omega
  rw [← hstale]
  have hcopied : (userCopy (Kernel.readToCopy a d l) reach).copied
      = min (Kernel.readToCopy a d l) reach := rfl
  by_cases hmoved : (userCopy (Kernel.readToCopy a d l) reach).copied = 0
  · -- the unsigned error code is larger than any FIFO
    rw [copyResult_unmoved hpos hmoved]
    have hsmall : fifoSize = 4096 := rfl
    have hcode : (2 : Int) ^ 32 - EFAULT = 4294967282 := by decide
    rw [hcode]
    omega
  · rw [copyResult_moved hmoved, hcopied]
    omega

/-! ## The history of a read -/

def ReadHistory (a : ReadArgs) (steps : List OwnStep) : Ctl ReadPc ReadResult → Prop
  | .run .start => faultChecks steps = []
  | .run (.fault l) => Remembers steps l
  | .run (.delay _ _ l) => Remembers steps l
  | .run (.lock l) => Remembers steps l
  | .run (.enqueue l) => Remembers steps l
  | .run (.checkFifo _ l) => Remembers steps l
  | .run (.checkFault _ l) => Remembers steps l
  | .run (.sleep l) => Remembers steps l
  | .run (.wake res) => DecidedByLast a steps res
  | .exit res => 0 < res.ret → DecidedByLast a steps res
  | .returned res => 0 < res.ret → DecidedByLast a steps res

theorem DecidedByLast.concat {a : ReadArgs} {steps : List OwnStep} {res : ReadResult}
    (h : DecidedByLast a steps res) (st : OwnStep) : DecidedByLast a (steps ++ [st]) res := by
  obtain ⟨before, st', after, rfl, hst, hiff⟩ := h
  exact ⟨before, st', after ++ [st], by simp, hst, hiff⟩

theorem ReadMove.history {a : ReadArgs} {d : Device} {ch : Choice} {woken : Bool} {pc : ReadPc}
    {e : Effect (Ctl ReadPc ReadResult)} (h : ReadMove a d ch woken pc e)
    (hfault : Canonical d.fault) (hsize : d.fifo.length ≤ fifoSize) (hwf : a.Wf (.run pc))
    {steps : List OwnStep} (hs : ReadHistory a steps (.run pc)) :
    ReadHistory a (steps ++ [⟨d, ch, woken, .read a (.run pc), e.dev, .read a e.ctl⟩]) e.ctl := by
  cases h with
  | zero => exact fun hpos => absurd hpos (by decide)
  | enter =>
    have hnone : recentCap (steps ++ [⟨d, ch, woken, .read a (.run .start), d,
        .read a (.run (.fault ⟨false, 0⟩))⟩]) = none := by
      rw [recentCap_skip rfl, recentCap, show faultChecks steps = [] from hs]
      rfl
    refine ⟨by rw [hnone]; rfl, ?_⟩
    rw [hnone]
    simp
  | sampleDelay hsample =>
    subst hsample
    exact hs.check hfault rfl
  | sampleFail hsample _ hret =>
    subst hsample
    intro hpos
    have hneg := (applyReadFault_ret _ _).1 hret
    exact absurd hpos (by simp only; omega)
  | samplePass hsample =>
    subst hsample
    exact hs.check hfault rfl
  | delayInterrupted => exact fun hpos => absurd hpos (by decide)
  | delayFail hret => exact absurd hwf.2 hret
  | delayPass => exact hs.skip rfl
  | lockInterrupted => exact fun hpos => absurd hpos (by decide)
  | again => exact fun hpos => absurd hpos (by decide)
  | block => exact hs.skip rfl
  | @dequeue l c hsignal hready hcopy hmoved =>
    subst hcopy
    exact ⟨steps, _, [], rfl, ⟨⟨l, rfl⟩, ⟨hsignal, hready⟩, .inl rfl⟩,
      Remembers.copyResult_iff hs hwf hready hsize ch.reach⟩
  | @copyFault l c hsignal hready hcopy hmoved =>
    subst hcopy
    intro _
    exact ⟨steps, _, [], rfl, ⟨⟨l, rfl⟩, ⟨hsignal, hready⟩, .inr rfl⟩,
      Remembers.copyResult_iff hs hwf hready hsize ch.reach⟩
  | queue => exact hs.skip rfl
  | fifoEmpty => exact hs.skip rfl
  | fifoReady => exact hs.skip rfl
  | faultReady => exact hs.skip rfl
  | waitInterrupted => exact fun hpos => absurd hpos (by decide)
  | sleep => exact hs.skip rfl
  | resume => exact hs.skip rfl
  | wake => exact fun _ => DecidedByLast.concat hs _

def CallHistory (steps : List OwnStep) : Call → Prop
  | .read a ctl => ReadHistory a steps ctl
  | _ => True

theorem CallMove.history {d : Device} {ch : Choice} {woken : Bool} {c : Call} {e : Effect Call}
    (h : CallMove d ch woken c e) (hfault : Canonical d.fault) (hsize : d.fifo.length ≤ fifoSize)
    (hwf : c.Wf) {steps : List OwnStep} (hs : CallHistory steps c) :
    CallHistory (steps ++ [⟨d, ch, woken, c, e.dev, e.ctl⟩]) e.ctl := by
  cases h with
  | read hm => exact hm.history hfault hsize hwf hs
  | readReturn => exact fun hpos => (hs hpos).concat _
  | write => trivial
  | poll => trivial
  | ioctl => trivial
  | writeReturn => trivial
  | pollReturn => trivial
  | ioctlReturn => trivial

/-- **A read is decided by what it last observed** exactly when its copy was
not cut short and no older limit cut it. -/
theorem read_decided_by_last_check {tr : List (Move Sys Label)} {s : Sys} (h : machine.Run tr s)
    {i : Nat} {a : ReadArgs} {res : ReadResult}
    (hret : s.callAt i = some (.read a (.returned res))) (hpos : 0 < res.ret) :
    DecidedByLast a (ownSteps i tr) res := by
  have hhistory := (machine_histories (Q := CallHistory) ?_ ?_ h).2 i _ hret
  · exact hhistory hpos
  · intro op
    cases op with
    | read a => rfl
    | _ => trivial
  · intro steps d ch woken c e hfault hsize hwf hm hs
    exact hm.history hfault hsize hwf hs

/-- A read sleeps under a limit of one byte until two bytes are written. -/
def limitedWhileAsleep : List Label := List.flatten [
  [.invoke (.ioctl (.setFault ⟨faultPartialRead, 0, 0, 1⟩))],
  List.replicate 5 (.step 0 { reach := 16 }),
  [.invoke (.read ⟨8, false⟩)], List.replicate 6 (.step 1 { reach := 8 }),
  [.invoke (.write ⟨[0x34, 0x32], true⟩)], List.replicate 6 (.step 2 { reach := 2 }),
  List.replicate 7 (.step 1 { reach := 8 })]

/-- The same, but the limit is cleared before the bytes are written. -/
def clearedWhileAsleep : List Label := List.flatten [
  [.invoke (.ioctl (.setFault ⟨faultPartialRead, 0, 0, 1⟩))],
  List.replicate 5 (.step 0 { reach := 16 }),
  [.invoke (.read ⟨8, false⟩)], List.replicate 6 (.step 1 { reach := 8 }),
  [.invoke (.ioctl .clearFault)], List.replicate 4 (.step 2 { reach := 16 }),
  [.invoke (.write ⟨[0x34, 0x32], true⟩)], List.replicate 6 (.step 3 { reach := 2 }),
  List.replicate 7 (.step 1 { reach := 8 })]

/-- The limit is in force when the read dequeues: it returns one byte of two. -/
theorem read_decided_by_last_check_limited : ∃ tr s, machine.Run tr s ∧
    s.callAt 1 = some (.read ⟨8, false⟩ (.returned ⟨1, [0x34]⟩)) ∧
    DecidedByLast ⟨8, false⟩ (ownSteps 1 tr) ⟨1, [0x34]⟩ := by
  have hrun : (machine.replay Sys.fresh limitedWhileAsleep).map (fun p => p.2.callAt 1)
      = some (some (.read ⟨8, false⟩ (.returned ⟨1, [0x34]⟩))) := by
    decide +kernel
  obtain ⟨tr, s, hr, hat⟩ := Lts.exists_run_of_replay (M := machine) rfl hrun
  exact ⟨tr, s, hr, hat, read_decided_by_last_check hr hat (by decide)⟩

/-- The last check saw no limit and two bytes were there for a buffer of
eight, and the read returned one. -/
theorem cleared_limit_still_cuts : ∃ tr s before st after, machine.Run tr s ∧
    s.callAt 1 = some (.read ⟨8, false⟩ (.returned ⟨1, [0x34]⟩)) ∧
    ownSteps 1 tr = before ++ st :: after ∧ st.DequeuesFor ⟨8, false⟩ ⟨1, [0x34]⟩ ∧
    st.ch.reach = 8 ∧ observedCap before = none ∧ decidedLength ⟨8, false⟩ st.dev before = 2 := by
  have hrun : (machine.replay Sys.fresh clearedWhileAsleep).map (fun p =>
      (p.2.callAt 1, (ownSteps 1 p.1)[10]?.any fun st =>
        decide (st.call = .read ⟨8, false⟩ (.run (.lock ⟨false, 1⟩))) &&
        decide (st.next = .read ⟨8, false⟩ (.run (.wake ⟨1, [0x34]⟩))) &&
        decide (st.ch = { reach := 8 }) && !kfifoIsEmpty st.dev &&
        decide (observedCap ((ownSteps 1 p.1).take 10) = none) &&
        decide (decidedLength ⟨8, false⟩ st.dev ((ownSteps 1 p.1).take 10) = 2)))
      = some (some (.read ⟨8, false⟩ (.returned ⟨1, [0x34]⟩)), true) := by
    decide +kernel
  obtain ⟨tr, s, hr, heq⟩ := Lts.exists_run_of_replay (M := machine) rfl hrun
  simp only [Prod.mk.injEq, Option.any_eq_true, Bool.and_eq_true, decide_eq_true_eq,
    Bool.not_eq_true'] at heq
  obtain ⟨hat, st, hst, ⟨⟨⟨⟨hcall, hnext⟩, hch⟩, hready⟩, hcap⟩, hlength⟩ := heq
  obtain ⟨hlt, hget⟩ := List.getElem?_eq_some_iff.mp hst
  refine ⟨tr, s, (ownSteps 1 tr).take 10, st, (ownSteps 1 tr).drop 11, hr, hat, ?_, ?_, ?_, hcap,
    hlength⟩
  · rw [← hget, List.getElem_cons_drop, List.take_append_drop]
  · exact ⟨⟨_, hcall⟩, ⟨by rw [hch], hready⟩, .inl hnext⟩
  · rw [hch]

end VDevLab.Kernel
