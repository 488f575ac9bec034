import VDevLab.Kernel.Barrier
import VDevLab.Kernel.Linearizable

/-!
# Progress

A nonblocking read or write and every ioctl are wait-free: such a call
returns after at most six steps of its own, whatever the other calls do.

A blocking call waits as long as it has to, but it does not spin. Between
two things that happen to it (a change of the device, a wake-up, a signal or
a timeout) it takes at most nine steps, and then it sleeps or has returned.
-/

namespace VDevLab.Kernel

/-- The call stands in the sleep of `wait_event_interruptible` or of
`poll(2)`. -/
def Call.asleep : Call → Bool
  | .read _ (.run (.sleep _)) => true
  | .write _ (.run .sleep) => true
  | .poll _ (.run .sleep) => true
  | _ => false

/-- Only a sleeping call that was not woken, and one that returned, can be
unable to step. -/
theorem Call.step_enabled {c : Call} (hlive : c.returned = false) {woken : Bool}
    (hawake : c.asleep = false ∨ woken = true) (d : Device) (ch : Choice) :
    (c.step d ch woken).isSome = true := by
  cases c with
  | read a ctl =>
    simp only [Call.step, Option.isSome_map]
    cases ctl with
    | run pc => cases pc <;> grind [Call.asleep, Ctl.step, readStep, goto]
    | exit res => rfl
    | returned res => cases hlive
  | write a ctl =>
    simp only [Call.step, Option.isSome_map]
    cases ctl with
    | run pc => cases pc <;> grind [Call.asleep, Ctl.step, writeStep, goto]
    | exit res => rfl
    | returned res => cases hlive
  | poll events ctl =>
    simp only [Call.step, Option.isSome_map]
    cases ctl with
    | run pc => cases pc <;> grind [Call.asleep, Ctl.step, pollStep, goto]
    | exit res => rfl
    | returned res => cases hlive
  | ioctl cmd ctl =>
    simp only [Call.step, Option.isSome_map]
    cases ctl with
    | run pc => cases pc <;> cases cmd <;> grind [Call.asleep, Ctl.step, ioctlStep, goto]
    | exit res => rfl
    | returned res => cases hlive

/-! ## Calls that never wait -/

def Op.waitFree : Op → Bool
  | .read a => a.nonblock
  | .write a => a.nonblock
  | .poll _ => false
  | .ioctl _ => true

/-- The steps that a call which never waits has left, at most. -/
def Call.rank : Call → Nat
  | .read _ (.run .start) => 6
  | .read _ (.run (.fault _)) => 5
  | .read _ (.run (.delay ..)) => 4
  | .read _ (.run (.lock _)) => 3
  | .read _ (.run (.wake _)) => 2
  | .read _ (.exit _) => 1
  | .write _ (.run .start) => 6
  | .write _ (.run .top) => 5
  | .write _ (.run .fullCheck) => 4
  | .write _ (.run .lock) => 3
  | .write _ (.run (.wake _)) => 2
  | .write _ (.exit _) => 1
  | .ioctl _ (.run .start) => 5
  | .ioctl _ (.run (.store _)) => 4
  | .ioctl _ (.run (.copyOut _)) => 2
  | .ioctl _ (.run .wakeRead) => 3
  | .ioctl _ (.run .wakeWrite) => 2
  | .ioctl _ (.exit _) => 1
  | _ => 0

/-- A call that never waits is on its direct way to its return. -/
def Call.Direct (c : Call) : Prop := c.op.waitFree = true → c.returned = true ∨ 0 < c.rank

theorem Op.call_direct (op : Op) : op.call.Direct := by
  cases op with
  | poll => exact fun h => absurd h Bool.false_ne_true
  | _ => exact fun _ => .inr (by simp [Op.call, Call.rank])

theorem Op.rank_call (op : Op) : op.call.rank ≤ 6 := by
  cases op <;> simp [Op.call, Call.rank]

theorem Call.Direct.awake {c : Call} (h : c.Direct) (hfree : c.op.waitFree = true) :
    c.asleep = false := by
  rcases h hfree with hret | hpos
  · unfold Call.asleep
    split <;> first | rfl | cases hret
  · unfold Call.asleep
    split
    · cases hpos
    · cases hpos
    · cases hfree
    · rfl

theorem CallMove.op {d : Device} {ch : Choice} {woken : Bool} {c : Call} {e : Effect Call}
    (h : CallMove d ch woken c e) : e.ctl.op = c.op := by
  cases h <;> rfl

/-- Each own step of such a call lowers its rank. -/
theorem CallMove.rank {d : Device} {ch : Choice} {woken : Bool} {c : Call} {e : Effect Call}
    (h : CallMove d ch woken c e) (hfree : c.op.waitFree = true) (hc : c.Direct) :
    e.ctl.rank + 1 ≤ c.rank ∧ e.ctl.Direct := by
  have hpos := hc hfree
  cases h with
  | read hm =>
    cases hm with
    | block _ _ hn => exact absurd (hfree.symm.trans hn) (by decide)
    | _ => simp_all [Call.Direct, Call.rank, Call.returned, Effect.map]
  | write hm =>
    cases hm with
    | wait _ hn => exact absurd (hfree.symm.trans hn) (by decide)
    | lockedRestart _ _ hn => exact absurd (hfree.symm.trans hn) (by decide)
    | _ => simp_all [Call.Direct, Call.rank, Call.returned, Effect.map]
  | poll => cases hfree
  | ioctl hm => cases hm <;> simp [Call.Direct, Call.rank, Effect.map]
  | readReturn => simp [Call.Direct, Call.rank, Call.returned]
  | writeReturn => simp [Call.Direct, Call.rank, Call.returned]
  | pollReturn => cases hfree
  | ioctlReturn => simp [Call.Direct, Call.rank, Call.returned]

/-- A call that has not been invoked has made no step. -/
theorem ownSteps_none {tr : List (Move Sys Label)} {s : Sys} (h : machine.Run tr s) {i : Nat}
    (hi : s.callers[i]? = none) : ownSteps i tr = [] := by
  induction h with
  | start => rfl
  | @snoc tr s l t hr hl ih =>
    rcases Sys.step_cases hl with ⟨op, rfl, rfl⟩ | ⟨j, ch, b, e, rfl, hb, -, rfl⟩
    · rw [ownSteps_invoke]
      apply ih
      rw [List.getElem?_eq_none_iff] at hi ⊢
      simp only [Sys.invoked, List.length_append] at hi
      omega
    · rw [Sys.after_getElem? hb] at hi
      by_cases hij : j = i
      · rw [if_pos hij] at hi
        cases hi
      · rw [if_neg hij, Option.map_eq_none_iff] at hi
        rw [ownSteps_other hij]
        exact ih hi

theorem machine_rank {tr : List (Move Sys Label)} {s : Sys} (h : machine.Run tr s) (i : Nat) :
    ∀ c, s.callAt i = some c → c.op.waitFree = true →
      c.Direct ∧ (ownSteps i tr).length + c.rank ≤ 6 := by
  induction h with
  | start hs =>
    cases hs
    intro c hc
    cases hc
  | @snoc tr s l t hr hl ih =>
    intro c hc hfree
    rcases Sys.step_cases hl with ⟨op, rfl, rfl⟩ | ⟨j, ch, b, e, rfl, hb, hm, rfl⟩
    · rw [ownSteps_invoke]
      rw [Sys.callAt_invoked] at hc
      split at hc
      · next hi =>
        cases hc
        rw [ownSteps_none hr (List.getElem?_eq_none (by omega))]
        exact ⟨op.call_direct, by simpa using op.rank_call⟩
      · exact ih c hc hfree
    · rw [Sys.callAt_after hb] at hc
      by_cases hij : j = i
      · subst hij
        rw [if_pos rfl] at hc
        cases hc
        have hop : e.ctl.op = b.call.op := hm.op
        rw [hop] at hfree
        obtain ⟨hdirect, hbound⟩ := ih b.call (Sys.callAt_of hb) hfree
        obtain ⟨hless, hdirect'⟩ := hm.rank hfree hdirect
        rw [ownSteps_self hb, List.length_append, List.length_singleton]
        exact ⟨hdirect', by omega⟩
      · rw [if_neg hij] at hc
        rw [ownSteps_other hij]
        exact ih c hc hfree

/-- The steps that a read has left before it sleeps or returns, as long as
nothing happens to it. -/
def readBudget (empty interrupts woken : Bool) : ReadPc → Nat
  | .start => 8
  | .fault _ => if interrupts then 2 else if empty then 7 else 5
  | .delay .. => if empty then (if interrupts then 7 else 6) else 4
  | .lock _ => if empty then (if interrupts then 6 else 5) else 3
  | .enqueue _ => if empty then (if interrupts then 5 else 4) else (if interrupts then 4 else 7)
  | .checkFifo .. =>
      if empty then (if interrupts then 4 else if woken then 7 else 3)
      else (if interrupts then 3 else 6)
  | .checkFault .. => if interrupts then 3 else if woken then (if empty then 6 else 9) else 2
  | .sleep _ =>
      if woken then
        (if empty then (if interrupts then 6 else 5) else (if interrupts then 5 else 8))
      else 0
  | .wake _ => 2

def writeBudget (full gone woken : Bool) : WritePc → Nat
  | .start => 8
  | .top => if gone then 2 else if full then 5 else 7
  | .fullCheck => if full then 2 else 4
  | .enqueue => if full then (if gone then 6 else 4) else (if gone then 5 else 6)
  | .checkFifo _ =>
      if full then (if gone then 5 else if woken then 7 else 3) else (if gone then 4 else 5)
  | .checkDisconnect _ => if gone then 4 else if woken then (if full then 6 else 8) else 2
  | .sleep =>
      if woken then (if full then (if gone then 7 else 5) else (if gone then 6 else 7)) else 0
  | .recheck => if gone then 3 else if full then 7 else 4
  | .lock => if full then (if gone then 3 else 6) else 3
  | .wake _ => 2

def pollBudget (woken : Bool) : PollPc → Nat
  | .registerRead => 6
  | .registerWrite => if woken then 9 else 5
  | .sampleFault _ => if woken then 8 else 4
  | .sampleFifo _ => if woken then 7 else 3
  | .decide .. => if woken then 6 else 2
  | .sleep => if woken then 5 else 0

def Call.budget (d : Device) (woken : Bool) : Call → Nat
  | .read _ (.run pc) => readBudget (kfifoIsEmpty d) (faultInterruptsRead d.fault) woken pc
  | .write _ (.run pc) => writeBudget (kfifoIsFull d) (isDisconnected d.fault) woken pc
  | .poll _ (.run pc) => pollBudget woken pc
  | .ioctl cmd ctl => (Call.ioctl cmd ctl).rank
  | .read _ (.exit _) => 1
  | .write _ (.exit _) => 1
  | .poll _ (.exit _) => 1
  | _ => 0

theorem Call.budget_le (d : Device) (woken : Bool) (c : Call) : c.budget d woken ≤ 9 := by
  cases c with
  | read a ctl =>
    cases ctl with
    | run pc =>
      show readBudget _ _ _ pc ≤ 9
      cases pc <;> simp only [readBudget] <;> grind
    | _ => simp [Call.budget]
  | write a ctl =>
    cases ctl with
    | run pc =>
      show writeBudget _ _ _ pc ≤ 9
      cases pc <;> simp only [writeBudget] <;> grind
    | _ => simp [Call.budget]
  | poll events ctl =>
    cases ctl with
    | run pc =>
      show pollBudget _ pc ≤ 9
      cases pc <;> simp only [pollBudget] <;> grind
    | _ => simp [Call.budget]
  | ioctl cmd ctl =>
    show (Call.ioctl cmd ctl).rank ≤ 9
    cases ctl with
    | run pc => cases pc <;> simp [Call.rank]
    | _ => simp [Call.rank]

/-- A read passes its sample only under a fault that does not interrupt. -/
theorem sample_passes {fault : FaultConfig} (h : Canonical fault) {l : ReadLocals}
    (hret : (applyReadFault fault l).ret = 0) : faultInterruptsRead fault = false := by
  cases h with
  | none => rfl
  | eio hpos hmax => simp +decide [applyReadFault, hpos] at hret
  | delay => rfl
  | disconnect => simp +decide [applyReadFault] at hret
  | partialRead => rfl

theorem Call.step_asleep {d : Device} {ch : Choice} {woken : Bool} {c : Call} {e : Effect Call}
    (h : c.step d ch woken = some e) (hasleep : c.asleep = true) :
    woken = true ∨ ch.signal = true ∨ ch.timeout = true := by
  unfold Call.asleep at hasleep
  split at hasleep
  · simp only [Call.step, Ctl.step, readStep] at h
    grind
  · simp only [Call.step, Ctl.step, writeStep] at h
    grind
  · simp only [Call.step, Ctl.step, pollStep] at h
    grind
  · cases hasleep

/-- A signal or a timeout is a reason to go round once more. -/
def Choice.disturbs (ch : Choice) : Bool := ch.signal || ch.timeout

theorem ReadMove.budget {a : ReadArgs} {d : Device} {ch : Choice} {woken : Bool} {pc : ReadPc}
    {e : Effect (Ctl ReadPc ReadResult)} (h : ReadMove a d ch woken pc e)
    (hd : Canonical d.fault)
    (hasleep : (Call.read a (.run pc)).asleep = true → woken = true ∨ ch.disturbs = true) :
    (Call.read a e.ctl).budget e.dev e.woken + 1 ≤
      (Call.read a (.run pc)).budget d woken + if ch.disturbs then 9 else 0 := by
  cases h with
  | @sampleDelay l s hs hdelay =>
    subst hs
    have hret := (applyReadFault_ret d.fault l).2 hdelay
    rw [sampled_pass hd hret]
    simp only [Call.budget, readBudget, sample_passes hd hret]
    grind
  | @samplePass l s hs _ hret =>
    subst hs
    rw [sampled_pass hd hret]
    simp only [Call.budget, readBudget, sample_passes hd hret]
    grind
  | resume =>
    rcases hasleep rfl with hw | hch
    · simp only [Call.budget, readBudget, hw]
      grind
    · simp only [Call.budget, readBudget, hch]
      grind
  | _ =>
    simp only [Call.budget, readBudget, *]
    grind

theorem WriteMove.budget {a : WriteArgs} {d : Device} {ch : Choice} {woken : Bool} {pc : WritePc}
    {e : Effect (Ctl WritePc Int)} (h : WriteMove a d ch woken pc e)
    (hasleep : (Call.write a (.run pc)).asleep = true → woken = true ∨ ch.disturbs = true) :
    (Call.write a e.ctl).budget e.dev e.woken + 1 ≤
      (Call.write a (.run pc)).budget d woken + if ch.disturbs then 9 else 0 := by
  cases h with
  | resume =>
    rcases hasleep rfl with hw | hch
    · simp only [Call.budget, writeBudget, hw]
      grind
    · simp only [Call.budget, writeBudget, hch]
      grind
  | _ =>
    simp only [Call.budget, writeBudget, *]
    grind

theorem PollMove.budget {events : PollMask} {d : Device} {ch : Choice} {woken : Bool}
    {pc : PollPc} {e : Effect (Ctl PollPc PollResult)} (h : PollMove events d ch woken pc e)
    (hasleep : (Call.poll events (.run pc)).asleep = true → woken = true ∨ ch.disturbs = true) :
    (Call.poll events e.ctl).budget e.dev e.woken + 1 ≤
      (Call.poll events (.run pc)).budget d woken + if ch.disturbs then 9 else 0 := by
  cases h with
  | resume =>
    rcases hasleep rfl with hw | hch
    · simp only [Call.budget, pollBudget, hw]
      grind
    · simp only [Call.budget, pollBudget, hch]
      grind
  | _ =>
    simp only [Call.budget, pollBudget]
    grind

/-- An own step costs one of the budget, and a signal or a timeout fills it
up again. -/
theorem Call.step_budget {d : Device} {ch : Choice} {woken : Bool} {c : Call} {e : Effect Call}
    (h : c.step d ch woken = some e) (hd : Canonical d.fault) :
    e.ctl.budget e.dev e.woken + 1 ≤ c.budget d woken + if ch.disturbs then 9 else 0 := by
  have hasleep : c.asleep = true → woken = true ∨ ch.disturbs = true := by
    intro hc
    simpa [Choice.disturbs] using Call.step_asleep h hc
  cases Call.step_move h with
  | read hm => exact hm.budget hd hasleep
  | write hm => exact hm.budget hasleep
  | poll hm => exact hm.budget hasleep
  | ioctl hm =>
    apply Nat.le_add_right_of_le
    cases hm <;> simp [Effect.map, Call.budget, Call.rank]
  | _ => simp [Call.budget, Call.rank]

def Sys.wokenAt (s : Sys) (i : Nat) : Option Bool := (s.callers[i]?).map (·.woken)

/-- Something happens to call `i`: it takes a signal or a timeout, or another
call changes the device or wakes it. -/
def disturbs (i : Nat) (m : Move Sys Label) : Bool :=
  match m.label with
  | .invoke _ => false
  | .step j ch =>
      if j = i then ch.disturbs
      else m.post.dev ≠ m.pre.dev || m.post.wokenAt i ≠ m.pre.wokenAt i

def disturbances (i : Nat) (tr : List (Move Sys Label)) : Nat := tr.countP (disturbs i)

/-- The budget of call `i`, before its invocation the largest there is. -/
def Sys.budget (s : Sys) (i : Nat) : Nat :=
  match s.callers[i]? with
  | none => 9
  | some c => c.call.budget s.dev c.woken

theorem Sys.budget_le (s : Sys) (i : Nat) : s.budget i ≤ 9 := by
  unfold Sys.budget
  split
  · exact le_rfl
  · exact Call.budget_le _ _ _

theorem Sys.budget_invoked (s : Sys) (op : Op) (i : Nat) :
    (s.invoked op).budget i ≤ s.budget i := by
  by_cases hi : i < s.callers.length
  · have hsame : (s.invoked op).callers[i]? = s.callers[i]? := by
      rw [Sys.invoked, List.getElem?_append_left hi]
    rw [Sys.budget, Sys.budget, hsame]
    exact le_rfl
  · have hnone : s.budget i = 9 := by
      rw [Sys.budget, List.getElem?_eq_none (Nat.not_lt.mp hi)]
    rw [hnone]
    exact Sys.budget_le _ _

theorem Sys.budget_other {s : Sys} {i j : Nat} {b : Caller} {e : Effect Call}
    (hb : s.callers[j]? = some b) (hij : j ≠ i) (ch : Choice) :
    (s.after j e).budget i ≤ s.budget i +
      if disturbs i ⟨s, .step j ch, s.after j e⟩ then 9 else 0 := by
  by_cases hdist : disturbs i ⟨s, .step j ch, s.after j e⟩ = true
  · rw [if_pos hdist]
    have := (s.after j e).budget_le i
    omega
  · -- the call stands where it stood, in front of the same device
    rw [if_neg hdist]
    simp only [disturbs, if_neg hij, Bool.or_eq_true, decide_eq_true_eq, not_or, not_not] at hdist
    obtain ⟨hdev, hwoken⟩ := hdist
    simp only [Sys.wokenAt, Sys.after_getElem? hb, if_neg hij] at hwoken
    simp only [Sys.budget, Sys.after_getElem? hb, if_neg hij]
    cases hc : s.callers[i]? with
    | none => simp
    | some c =>
      rw [hc] at hwoken
      simp only [Option.map_some, Option.some.injEq] at hwoken ⊢
      rw [Caller.wakeUp_call, hwoken, hdev]
      exact le_rfl

/-- A call does not wake itself. -/
theorem CallMove.wakeUp_self {d : Device} {ch : Choice} {woken : Bool} {c : Call}
    {e : Effect Call} (h : CallMove d ch woken c e) :
    Caller.wakeUp e.wake ⟨e.ctl, e.woken⟩ = ⟨e.ctl, e.woken⟩ := by
  cases h with
  | read hm => cases hm <;> rfl
  | write hm => cases hm <;> rfl
  | poll hm => cases hm <;> rfl
  | ioctl hm => cases hm <;> rfl
  | _ => rfl

theorem machine_budget {tr : List (Move Sys Label)} {s : Sys} (h : machine.Run tr s) (i : Nat) :
    (ownSteps i tr).length + s.budget i ≤ 9 + 9 * disturbances i tr := by
  induction h with
  | start hs =>
    cases hs
    exact le_rfl
  | @snoc tr s l t hr hl ih =>
    have hcount : disturbances i (tr ++ [⟨s, l, t⟩]) =
        disturbances i tr + if disturbs i ⟨s, l, t⟩ then 1 else 0 := by
      rw [disturbances, List.countP_append, List.countP_singleton]
      rfl
    rw [hcount]
    rcases Sys.step_effect hl with ⟨op, rfl, rfl⟩ | ⟨j, ch, b, e, rfl, hb, he, rfl⟩
    · rw [ownSteps_invoke]
      have := s.budget_invoked op i
      omega
    · by_cases hij : j = i
      · subst hij
        have hpre : s.budget j = b.call.budget s.dev b.woken := by simp only [Sys.budget, hb]
        have hpost : (s.after j e).budget j = e.ctl.budget e.dev e.woken := by
          simp only [Sys.budget, Sys.after_getElem?_self hb, (Call.step_move he).wakeUp_self]
          rfl
        have hcost := Call.step_budget he (machine_inv hr).fault
        have hdist : disturbs j ⟨s, .step j ch, s.after j e⟩ = ch.disturbs := by simp [disturbs]
        rw [ownSteps_self hb, List.length_append, List.length_singleton, hpost, hdist]
        split at hcost <;> simp_all <;> omega
      · rw [ownSteps_other hij]
        have hcost := Sys.budget_other (e := e) hb hij ch
        split at hcost <;> simp_all <;> omega

/-- A call takes at most nine steps between two things that happen to it. It
is able to take the next one unless it has returned or sleeps and was not
woken. So a blocking call never spins. -/
theorem calls_never_spin {tr : List (Move Sys Label)} {s : Sys} (h : machine.Run tr s)
    {i : Nat} {c : Caller} (hc : s.callers[i]? = some c) :
    (ownSteps i tr).length ≤ 9 + 9 * disturbances i tr ∧
    (c.call.returned = true ∨ (c.call.asleep = true ∧ c.woken = false) ∨
      ∀ ch, (s.step (.step i ch)).isSome = true) := by
  refine ⟨by have := machine_budget h i; omega, ?_⟩
  by_cases hlive : c.call.returned = true
  · exact .inl hlive
  by_cases hasleep : c.call.asleep = true ∧ c.woken = false
  · exact .inr (.inl hasleep)
  · refine .inr (.inr fun ch => ?_)
    have hawake : c.call.asleep = false ∨ c.woken = true := by
      cases hc : c.call.asleep <;> simp_all
    have hstep := Call.step_enabled (Bool.eq_false_iff.mpr hlive) hawake s.dev ch
    simpa [Sys.step, hc] using hstep

/-- A read goes to sleep on the empty FIFO, and a write wakes it. -/
def wokenReader : List Label :=
  .invoke (.read ⟨1, false⟩) :: List.replicate 6 (.step 0 {}) ++
    .invoke (.write ⟨[7], true⟩) :: List.replicate 6 (.step 1 { reach := 1 }) ++
    List.replicate 7 (.step 0 { reach := 1 })

theorem calls_never_spin_wokenReader : ∃ tr s c, machine.Run tr s ∧ s.callers[0]? = some c ∧
    c.call = .read ⟨1, false⟩ (.returned ⟨1, [7]⟩) ∧ disturbances 0 tr = 2 ∧
    (ownSteps 0 tr).length ≤ 27 := by
  have hrun : (machine.replay .fresh wokenReader).map
      (fun p => (p.2.callers[0]?, disturbances 0 p.1)) =
        some (some ⟨.read ⟨1, false⟩ (.returned ⟨1, [7]⟩), false⟩, 2) := rfl
  obtain ⟨tr, s, hr, heq⟩ := Lts.exists_run_of_replay (M := machine) rfl hrun
  simp only [Prod.mk.injEq] at heq
  have hspin := (calls_never_spin hr heq.1).1
  rw [heq.2] at hspin
  exact ⟨tr, s, _, hr, heq.1, rfl, heq.2, hspin⟩

end VDevLab.Kernel
