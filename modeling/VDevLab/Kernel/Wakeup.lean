import VDevLab.Kernel.Calls

/-!
# No wake-up is lost

A waiter queues itself before it tests its condition, and every state change
that can make a condition true is followed, in the same call, by a wake-up of
the queue that waits for it. The automatic return to NONE after the last EIO
occurrence wakes nobody; it can only end a condition, never start one.

The invariant is kept per waiter and per program counter: a half-tested
condition is already covered for the half that was tested.
-/

namespace VDevLab.Kernel

/-! ## Operations that still owe a wake-up -/

def Call.returned : Call → Bool
  | .read _ (.returned _) => true
  | .write _ (.returned _) => true
  | .poll _ (.returned _) => true
  | .ioctl _ (.returned _) => true
  | _ => false

/-- The move is a step of caller `j` that runs `wake_up_interruptible` on `q`. -/
def Wakes (m : Move Sys Label) (j : Nat) (q : Queue) : Prop :=
  ∃ (ch : Choice) (c : Caller) (e : Effect Call), m.label = .step j ch ∧
    m.pre.callers[j]? = some c ∧ c.call.step m.pre.dev ch c.woken = some e ∧ e.wake = some q

/-- Caller `j` is in flight and cannot return before it has woken `q`: however
the run goes on, it has woken the queue or is still able to step. -/
def WillWake (s : Sys) (j : Nat) (q : Queue) : Prop :=
  ∀ tr t, (machine.startingAt s).Run tr t →
    (∃ m ∈ tr, Wakes m j q) ∨
    (∃ c : Caller, t.callers[j]? = some c ∧ c.call.returned = false ∧
      ∀ ch, (t.step (.step j ch)).isSome = true)

/-- Some operation in flight will still wake the queue. -/
def PendingWake (s : Sys) (q : Queue) : Prop := ∃ j, WillWake s j q

/-- The call is past a state change and before its wake-up of the queue. -/
def Call.owesWake : Call → Queue → Bool
  | .read _ (.run (.wake _)), .writeq => true
  | .write _ (.run (.wake _)), .readq => true
  | .ioctl _ (.run .wakeRead), _ => true
  | .ioctl _ (.run .wakeWrite), .writeq => true
  | _, _ => false

/-- A debt is paid or kept; it does not lapse. -/
theorem CallMove.owesWake {d : Device} {ch : Choice} {woken : Bool} {c : Call} {e : Effect Call}
    (h : CallMove d ch woken c e) {q : Queue} (hc : c.owesWake q = true) :
    e.wake = some q ∨ e.ctl.owesWake q = true := by
  cases h with
  | read hm => cases hm <;> cases q <;> simp_all [Call.owesWake, Effect.map]
  | write hm => cases hm <;> cases q <;> simp_all [Call.owesWake, Effect.map]
  | poll hm => simp [Call.owesWake] at hc
  | ioctl hm => cases hm <;> cases q <;> simp_all [Call.owesWake, Effect.map]
  | _ => simp [Call.owesWake] at hc

theorem Call.owesWake_enabled {c : Call} {q : Queue} (hc : c.owesWake q = true) (d : Device)
    (ch : Choice) (woken : Bool) : (c.step d ch woken).isSome = true := by
  cases c with
  | read a ctl =>
    cases ctl with
    | run pc => cases pc <;> cases q <;> simp_all [Call.owesWake, Call.step, Ctl.step, readStep]
    | _ => simp [Call.owesWake] at hc
  | write a ctl =>
    cases ctl with
    | run pc => cases pc <;> cases q <;> simp_all [Call.owesWake, Call.step, Ctl.step, writeStep]
    | _ => simp [Call.owesWake] at hc
  | poll => simp [Call.owesWake] at hc
  | ioctl cmd ctl =>
    cases ctl with
    | run pc => cases pc <;> cases q <;> simp_all [Call.owesWake, Call.step, Ctl.step, ioctlStep]
    | _ => simp [Call.owesWake] at hc

theorem Call.owesWake_inFlight {c : Call} {q : Queue} (hc : c.owesWake q = true) :
    c.returned = false := by
  cases c with
  | read a ctl => cases ctl <;> simp_all [Call.owesWake, Call.returned]
  | write a ctl => cases ctl <;> simp_all [Call.owesWake, Call.returned]
  | poll => simp [Call.owesWake] at hc
  | ioctl cmd ctl => cases ctl <;> simp_all [Call.owesWake, Call.returned]

/-- A call that owes a wake-up will make it. -/
theorem Call.owesWake_willWake {s : Sys} {j : Nat} {c : Caller} {q : Queue}
    (hc : s.callers[j]? = some c) (hq : c.call.owesWake q = true) : WillWake s j q := by
  intro tr t hrun
  -- over every continuation: the wake-up was made, or it is still owed
  suffices h : (∃ m ∈ tr, Wakes m j q) ∨
      ∃ c : Caller, t.callers[j]? = some c ∧ c.call.owesWake q = true by
    rcases h with h | ⟨c', hc', hq'⟩
    · exact .inl h
    · refine .inr ⟨c', hc', Call.owesWake_inFlight hq', fun ch => ?_⟩
      simpa [Sys.step, hc'] using Call.owesWake_enabled hq' t.dev ch c'.woken
  induction hrun with
  | start hs => exact .inr ⟨c, hs ▸ hc, hq⟩
  | @snoc tr s l t _ hl ih =>
    rcases ih with ⟨m, hm, hw⟩ | ⟨b, hb, hbq⟩
    · exact .inl ⟨m, List.mem_append_left _ hm, hw⟩
    · rcases Sys.step_effect hl with ⟨op, -, rfl⟩ | ⟨i, ch, b', e, rfl, hb', he, rfl⟩
      · exact .inr ⟨b, Sys.getElem?_invoked op hb, hbq⟩
      · by_cases hij : i = j
        · subst hij
          cases hb'.symm.trans hb
          rcases (Call.step_move he).owesWake hbq with hw | hw
          · exact .inl ⟨_, List.mem_append_right _ (List.mem_singleton_self _),
              ch, b, e, rfl, hb, he, hw⟩
          · exact .inr ⟨_, Sys.after_getElem?_self hb e, by rw [Caller.wakeUp_call]; exact hw⟩
        · refine .inr ⟨b.wakeUp e.wake, ?_, by rw [Caller.wakeUp_call]; exact hbq⟩
          rw [Sys.after_getElem? hb', if_neg hij, hb]
          rfl

/-! ## Which changes enable a waiter -/

/-- Whatever a step newly offers to readers or writers, the call that made it
owes them a wake-up. -/
structure Announces (d d' : Device) (c : Call) : Prop where
  data : kfifoIsEmpty d = true → kfifoIsEmpty d' = false → c.owesWake .readq = true
  fault : faultInterruptsRead d.fault = false → faultInterruptsRead d'.fault = true →
    c.owesWake .readq = true
  room : kfifoIsFull d = true → kfifoIsFull d' = false → c.owesWake .writeq = true
  gone : isDisconnected d.fault = false → isDisconnected d'.fault = true →
    c.owesWake .writeq = true

theorem Announces.of_control {d d' : Device} {cmd : IoctlCmd} :
    Announces d d' (.ioctl cmd (.run .wakeRead)) :=
  ⟨fun _ _ => rfl, fun _ _ => rfl, fun _ _ => rfl, fun _ _ => rfl⟩

/-- A step that keeps the FIFO and starts no interrupting fault announces nothing. -/
theorem Announces.of_quiet {d d' : Device} (c : Call) (hfifo : d'.fifo = d.fifo)
    (hread : faultInterruptsRead d.fault = false → faultInterruptsRead d'.fault = false)
    (hgone : isDisconnected d.fault = false → isDisconnected d'.fault = false) :
    Announces d d' c := by
  have hempty : kfifoIsEmpty d' = kfifoIsEmpty d := by rw [kfifoIsEmpty, kfifoIsEmpty, hfifo]
  have hfull : kfifoIsFull d' = kfifoIsFull d := by rw [kfifoIsFull, kfifoIsFull, hfifo]
  refine ⟨fun h h' => ?_, fun h h' => ?_, fun h h' => ?_, fun h h' => ?_⟩
  · simp [hempty, h] at h'
  · simp [hread h] at h'
  · simp [hfull, h] at h'
  · simp [hgone h] at h'

theorem takeOccurrence_connected {fault : FaultConfig} (ht : fault.type = faultEio) :
    isDisconnected (takeOccurrence fault) = false := by
  unfold takeOccurrence
  split
  · rfl
  · simp +decide [isDisconnected, ht]

theorem faultInterruptsRead_eio {fault : FaultConfig} (ht : fault.type = faultEio) :
    faultInterruptsRead fault = true := by
  simp [faultInterruptsRead, ht]

theorem DeviceMove.announces {d : Device} {ch : Choice} {c : Call} {e : Effect Call}
    (h : DeviceMove d ch c e) (hd : Canonical d.fault) : Announces d e.dev e.ctl := by
  cases h with
  | same he => rw [he]; exact .of_quiet _ rfl id id
  | @sample a l e he =>
    rw [he]
    -- under EIO the sample only counts down, and ends in NONE without a wake-up
    rcases applyReadFault_cases hd l with ⟨ht, -, hs⟩ | ⟨-, hs, -⟩
    · refine .of_quiet _ rfl (fun h => ?_) (fun _ => ?_)
      · simp [faultInterruptsRead_eio ht] at h
      · rw [Device.sampled, hs]
        exact takeOccurrence_connected ht
    · exact .of_quiet _ rfl (fun h => by rw [Device.sampled, hs]; exact h)
        (fun h => by rw [Device.sampled, hs]; exact h)
  | dequeue _ hne =>
    exact ⟨fun h => by simp [h] at hne, fun h h' => by simp [h] at h', fun _ _ => rfl,
      fun h h' => by simp [h] at h'⟩
  | enqueue _ hroom =>
    exact ⟨fun _ _ => rfl, fun h h' => by simp [h] at h', fun h => by simp [h] at hroom,
      fun h h' => by simp [h] at h'⟩
  | control => exact .of_control

/-! ## The condition a waiter has already tested -/

/-- The part of its condition that the waiter found false, and would now find
true. A poller has found false whatever mask it holds. -/
def Call.missed (d : Device) : Call → Bool
  | .read _ (.run (.checkFault false _)) => !kfifoIsEmpty d
  | .read _ (.run (.sleep _)) => !kfifoIsEmpty d || faultInterruptsRead d.fault
  | .write _ (.run (.checkDisconnect false)) => !kfifoIsFull d
  | .write _ (.run .sleep) => !kfifoIsFull d || isDisconnected d.fault
  | .poll _ (.run (.sampleFifo _)) => faultInterruptsRead d.fault
  | .poll events (.run (.decide _ mask)) =>
      (pollMask d &&& pollFilter events != 0) && (mask &&& pollFilter events == 0)
  | .poll events (.run .sleep) => pollMask d &&& pollFilter events != 0
  | _ => false

theorem pollFaultMask_eq_none {fault : FaultConfig} :
    pollFaultMask fault = none ↔ faultInterruptsRead fault = false := by
  unfold pollFaultMask faultInterruptsRead
  split_ifs <;> simp_all

/-- EPOLLERR is in every filter, so a poller never misses a fault it sampled. -/
theorem pollFaultMask_hit {fault : FaultConfig} {mask : PollMask}
    (h : pollFaultMask fault = some mask) (events : PollMask) :
    mask &&& pollFilter events ≠ 0 := by
  intro h0
  have hbit := congrArg (BitVec.getLsbD · 3) h0
  unfold pollFaultMask at h
  split_ifs at h <;> cases h <;> simp [pollFilter] at hbit

theorem pollMask_interrupted {d : Device} (h : faultInterruptsRead d.fault = true)
    (events : PollMask) : pollMask d &&& pollFilter events ≠ 0 := by
  cases hm : pollFaultMask d.fault with
  | none => simp [pollFaultMask_eq_none.mp hm] at h
  | some mask => rw [pollMask, hm]; exact pollFaultMask_hit hm events

theorem pollMask_quiet {d : Device} (h : faultInterruptsRead d.fault = false) :
    pollMask d = pollFifoMask d := by
  rw [pollMask, pollFaultMask_eq_none.mpr h, Option.getD_none]

/-- The FIFO half of the mask only grows when data or room appears. -/
theorem pollFifoMask_grows {d d' : Device} {f : PollMask} (h : pollFifoMask d &&& f = 0)
    (h' : pollFifoMask d' &&& f ≠ 0) :
    (kfifoIsEmpty d = true ∧ kfifoIsEmpty d' = false) ∨
    (kfifoIsFull d = true ∧ kfifoIsFull d' = false) := by
  simp only [pollFifoMask, BitVec.and_or_distrib_right, ne_eq] at h h'
  cases he : kfifoIsEmpty d <;> cases he' : kfifoIsEmpty d' <;> cases hf : kfifoIsFull d <;>
    cases hf' : kfifoIsFull d' <;> simp_all

section Announces

variable {d d' : Device} {b : Call}

theorem Announces.pollMask (h : Announces d d' b) {events : PollMask}
    (hz : pollMask d &&& pollFilter events = 0) (hnz : pollMask d' &&& pollFilter events ≠ 0) :
    ∃ q, b.owesWake q = true := by
  have hquiet : faultInterruptsRead d.fault = false := by
    by_contra hi
    exact pollMask_interrupted (Bool.eq_true_of_not_eq_false hi) events hz
  cases hquiet' : faultInterruptsRead d'.fault with
  | true => exact ⟨.readq, h.fault hquiet hquiet'⟩
  | false =>
    rw [pollMask_quiet hquiet] at hz
    rw [pollMask_quiet hquiet'] at hnz
    rcases pollFifoMask_grows hz hnz with ⟨he, he'⟩ | ⟨hf, hf'⟩
    · exact ⟨.readq, h.data he he'⟩
    · exact ⟨.writeq, h.room hf hf'⟩

/-- What another call makes a waiter miss, it owes to a queue the waiter is on. -/
theorem Announces.missed (h : Announces d d' b) {c : Call} (hz : c.missed d = false)
    (hnz : c.missed d' = true) : ∃ q, c.queuedOn q = true ∧ b.owesWake q = true := by
  unfold Call.missed at hz hnz
  split at hnz
  · exact ⟨.readq, rfl, h.data (by simpa using hz) (by simpa using hnz)⟩
  · simp only [Bool.or_eq_false_iff, Bool.not_eq_false'] at hz
    rcases Bool.or_eq_true_iff.mp hnz with hd | hi
    · exact ⟨.readq, rfl, h.data hz.1 (by simpa using hd)⟩
    · exact ⟨.readq, rfl, h.fault hz.2 hi⟩
  · exact ⟨.writeq, rfl, h.room (by simpa using hz) (by simpa using hnz)⟩
  · simp only [Bool.or_eq_false_iff, Bool.not_eq_false'] at hz
    rcases Bool.or_eq_true_iff.mp hnz with hd | hi
    · exact ⟨.writeq, rfl, h.room hz.1 (by simpa using hd)⟩
    · exact ⟨.writeq, rfl, h.gone hz.2 hi⟩
  · exact ⟨.readq, rfl, h.fault hz hnz⟩
  · simp only [Bool.and_eq_true, bne_iff_ne, beq_iff_eq] at hnz
    simp only [hnz.2, BEq.rfl, Bool.and_true, bne_eq_false_iff_eq] at hz
    obtain ⟨q, hq⟩ := h.pollMask hz hnz.1
    exact ⟨q, rfl, hq⟩
  · obtain ⟨q, hq⟩ := h.pollMask (by simpa using hz) (by simpa using hnz)
    exact ⟨q, rfl, hq⟩
  · cases hnz

end Announces

/-- A call's own move never makes it miss anything new: what it misses after
the move it already missed before, on the same queues. -/
theorem CallMove.missed {d : Device} {ch : Choice} {woken : Bool} {c : Call} {e : Effect Call}
    (h : CallMove d ch woken c e) (hm : e.ctl.missed e.dev = true) :
    c.missed d = true ∧ e.woken = woken ∧ e.wake = none ∧
      ∀ q, c.queuedOn q = true → e.ctl.queuedOn q = true := by
  cases h with
  | read hr =>
    cases hr with
    | fifoEmpty he => cases ‹Bool› <;> simp [Effect.map, Call.missed, he] at hm
    | @sleep l hf =>
      simp only [Effect.map, Call.missed, hf, Bool.or_false] at hm
      exact ⟨hm, rfl, rfl, fun q hq => by cases q <;> simp_all [Effect.map, Call.queuedOn]⟩
    | _ => simp [Effect.map, Call.missed] at hm
  | write hw =>
    cases hw with
    | fifoFull hf => cases ‹Bool› <;> simp [Effect.map, Call.missed, hf] at hm
    | sleep hd =>
      simp only [Effect.map, Call.missed, hd, Bool.or_false] at hm
      exact ⟨hm, rfl, rfl, fun q hq => by cases q <;> simp_all [Effect.map, Call.queuedOn]⟩
    | _ => simp [Effect.map, Call.missed] at hm
  | @poll events pc f hp =>
    cases hp with
    | noFaultMask hn =>
      simp [Effect.map, Call.missed, pollFaultMask_eq_none.mp hn] at hm
    | faultMask hs =>
      simp only [Effect.map, Call.missed, Bool.and_eq_true, beq_iff_eq] at hm
      exact absurd hm.2 (pollFaultMask_hit hs events)
    | fifoMask =>
      refine ⟨?_, rfl, rfl, fun q _ => rfl⟩
      simp only [Effect.map, Call.missed, Bool.and_eq_true, bne_iff_ne, beq_iff_eq] at hm
      by_contra hi
      rw [pollMask_quiet (Bool.eq_false_of_not_eq_true hi)] at hm
      exact hm.1 hm.2
    | sleep hz =>
      refine ⟨?_, rfl, rfl, fun q _ => rfl⟩
      simpa [Effect.map, Call.missed, hz] using hm
    | _ => simp [Effect.map, Call.missed] at hm
  | ioctl hi => cases hi <;> simp [Effect.map, Call.missed] at hm
  | _ => simp [Call.missed] at hm

theorem Call.missed_owesWake {d : Device} {c : Call} (h : c.missed d = true) (q : Queue) :
    c.owesWake q = false := by
  unfold Call.missed at h
  split at h <;> first | rfl | cases h

/-! ## The invariant -/

/-- The caller was woken, or somebody still owes a wake-up to a queue it is on. -/
def Sys.Alerted (s : Sys) (c : Caller) : Prop :=
  c.woken = true ∨ ∃ (q : Queue) (j : Nat) (b : Caller), c.call.queuedOn q = true ∧
    s.callers[j]? = some b ∧ b.call.owesWake q = true

/-- Nobody misses anything without being alerted. -/
def Sys.Covered (s : Sys) : Prop :=
  ∀ (i : Nat) (c : Caller), s.callers[i]? = some c → c.call.missed s.dev = true → s.Alerted c

theorem Caller.wakeUp_woken {c : Caller} (w : Option Queue) (h : c.woken = true) :
    (c.wakeUp w).woken = true := by
  unfold Caller.wakeUp
  cases w with
  | none => exact h
  | some q => simp only; split <;> first | rfl | exact h

theorem Caller.wakeUp_queued {c : Caller} {q : Queue} (h : c.call.queuedOn q = true) :
    (c.wakeUp (some q)).woken = true := by
  simp [Caller.wakeUp, h]

/-- An alert survives the step of another caller: its debtor still owes, or has just paid. -/
theorem Sys.Alerted.after {s : Sys} {c b : Caller} {i : Nat} {ch : Choice} {e : Effect Call}
    (hb : s.callers[i]? = some b) (hm : CallMove s.dev ch b.woken b.call e) (h : s.Alerted c) :
    (s.after i e).Alerted (c.wakeUp e.wake) := by
  rcases h with h | ⟨q, j, b', hq, hj, how⟩
  · exact .inl (Caller.wakeUp_woken _ h)
  · by_cases hij : i = j
    · subst hij
      cases hb.symm.trans hj
      rcases hm.owesWake how with hw | hw
      · rw [hw]; exact .inl (Caller.wakeUp_queued hq)
      · exact .inr ⟨q, i, _, by rw [Caller.wakeUp_call]; exact hq,
          Sys.after_getElem?_self hb e, by rw [Caller.wakeUp_call]; exact hw⟩
    · refine .inr ⟨q, j, b'.wakeUp e.wake, by rw [Caller.wakeUp_call]; exact hq, ?_,
        by rw [Caller.wakeUp_call]; exact how⟩
      rw [Sys.after_getElem? hb, if_neg hij, hj]
      rfl

theorem Sys.Covered.invoked {s : Sys} (h : s.Covered) (op : Op) : (s.invoked op).Covered := by
  intro i c hc hm
  rcases Sys.invoked_cases hc with hc | ⟨-, rfl⟩
  · rcases h i c hc hm with hw | ⟨q, j, b, hq, hj, how⟩
    · exact .inl hw
    · exact .inr ⟨q, j, b, hq, Sys.getElem?_invoked op hj, how⟩
  · cases op <;> simp [Op.call, Call.missed] at hm

theorem Sys.Covered.after {s : Sys} (h : s.Covered) (hd : Canonical s.dev.fault) {i : Nat}
    {b : Caller} {ch : Choice} {e : Effect Call} (hb : s.callers[i]? = some b)
    (hm : CallMove s.dev ch b.woken b.call e) : (s.after i e).Covered := by
  intro j c hc hmiss
  rw [Sys.after_getElem? hb] at hc
  by_cases hij : i = j
  · -- the caller itself moved
    subst hij
    rw [if_pos rfl, Option.some.injEq] at hc
    subst hc
    rw [Caller.wakeUp_call] at hmiss
    -- it missed the same before, so the alert it had then still stands
    obtain ⟨hpre, hwoken, hwake, hqueues⟩ := hm.missed hmiss
    rw [hwake]
    rcases h i b hb hpre with hw | ⟨q, k, b', hq, hk, how⟩
    · exact .inl (hwoken.trans hw)
    · -- a caller that misses something is waiting and owes nothing itself
      have hik : i ≠ k := by
        rintro rfl
        cases hb.symm.trans hk
        simp [Call.missed_owesWake hpre q] at how
      refine .inr ⟨q, k, b'.wakeUp e.wake, hqueues q hq, ?_,
        by rw [Caller.wakeUp_call]; exact how⟩
      rw [Sys.after_getElem? hb, if_neg hik, hk]
      rfl
  · -- another caller moved: what it newly offers, it announces
    rw [if_neg hij] at hc
    obtain ⟨c', hc', rfl⟩ := Option.map_eq_some_iff.mp hc
    rw [Caller.wakeUp_call] at hmiss
    cases hpre : c'.call.missed s.dev with
    | true => exact (h j c' hc' hpre).after hb hm
    | false =>
      obtain ⟨q, hq, how⟩ := (hm.device.announces hd).missed hpre hmiss
      exact .inr ⟨q, i, _, by rw [Caller.wakeUp_call]; exact hq,
        Sys.after_getElem?_self hb e, by rw [Caller.wakeUp_call]; exact how⟩

theorem machine_covered {tr : List (Move Sys Label)} {s : Sys} (h : machine.Run tr s) :
    s.Covered := by
  have hrun : s.Inv ∧ s.Covered := by
    refine h.invariant (I := fun s => s.Inv ∧ s.Covered) (fun s hs => ?_) (fun s l t hi hl => ⟨hi.1.step hl, ?_⟩)
    · cases hs
      exact ⟨Sys.fresh_inv, by simp [Sys.Covered, Sys.fresh]⟩
    · rcases Sys.step_cases hl with ⟨op, -, rfl⟩ | ⟨i, ch, c, e, -, hc, hm, rfl⟩
      · exact hi.2.invoked op
      · exact hi.2.after hi.1.fault hc hm
  exact hrun.2

/-! ## No lost wake-up -/

/-- Every sleeper whose condition holds was woken or will be. -/
structure NoLostWakeup (s : Sys) : Prop where
  reader : ∀ (i : Nat) (c : Caller) a l, s.callers[i]? = some c →
    c.call = .read a (.run (.sleep l)) →
    s.dev.fifo ≠ [] ∨ s.dev.fault.type = faultEio ∨ s.dev.fault.type = faultDisconnect →
    c.woken = true ∨ PendingWake s .readq
  writer : ∀ (i : Nat) (c : Caller) a, s.callers[i]? = some c →
    c.call = .write a (.run .sleep) →
    s.dev.fifo.length < fifoSize ∨ s.dev.fault.type = faultDisconnect →
    c.woken = true ∨ PendingWake s .writeq
  poller : ∀ (i : Nat) (c : Caller) events, s.callers[i]? = some c →
    c.call = .poll events (.run .sleep) →
    pollMask s.dev &&& (events ||| EPOLLERR ||| EPOLLHUP) ≠ 0 →
    c.woken = true ∨ PendingWake s .readq ∨ PendingWake s .writeq

/-- An alerted caller was woken, or a wake-up of a queue it is on is pending. -/
theorem Sys.Alerted.pending {s : Sys} {c : Caller} (h : s.Alerted c) :
    c.woken = true ∨ ∃ q, c.call.queuedOn q = true ∧ PendingWake s q := by
  rcases h with h | ⟨q, j, b, hq, hj, how⟩
  · exact .inl h
  · exact .inr ⟨q, hq, j, Call.owesWake_willWake hj how⟩

/-- **No wake-up is lost** in any reachable state of the module. -/
theorem no_lost_wakeup {tr : List (Move Sys Label)} {s : Sys} (h : machine.Run tr s) :
    NoLostWakeup s := by
  have hcov := machine_covered h
  refine ⟨fun i c a l hc hcall hready => ?_, fun i c a hc hcall hready => ?_,
    fun i c events hc hcall hready => ?_⟩
  · have hmiss : c.call.missed s.dev = true := by
      simpa [hcall, Call.missed, kfifoIsEmpty, faultInterruptsRead] using hready
    rcases (hcov i c hc hmiss).pending with hw | ⟨q, hq, hp⟩
    · exact .inl hw
    · cases q with
      | readq => exact .inr hp
      | writeq => simp [hcall, Call.queuedOn] at hq
  · have hmiss : c.call.missed s.dev = true := by
      simpa [hcall, Call.missed, kfifoIsFull, isDisconnected] using hready
    rcases (hcov i c hc hmiss).pending with hw | ⟨q, hq, hp⟩
    · exact .inl hw
    · cases q with
      | readq => simp [hcall, Call.queuedOn] at hq
      | writeq => exact .inr hp
  · have hmiss : c.call.missed s.dev = true := by
      simpa [hcall, Call.missed, pollFilter] using hready
    rcases (hcov i c hc hmiss).pending with hw | ⟨q, -, hp⟩
    · exact .inl hw
    · cases q with
      | readq => exact .inr (.inl hp)
      | writeq => exact .inr (.inr hp)

/-- A read goes to sleep on the empty FIFO; a write stores a byte and has not
yet woken it. -/
def sleepTrial : List Label :=
  [.invoke (.read ⟨8, false⟩), .step 0 {}, .step 0 {}, .step 0 {}, .step 0 {}, .step 0 {},
    .step 0 {}, .invoke (.write ⟨[52], true⟩), .step 1 {}, .step 1 {}, .step 1 {},
    .step 1 { reach := 1 }]

theorem no_lost_wakeup_trial : ∃ tr s, machine.Run tr s ∧ s.dev.fifo = [52] ∧
    s.callers[0]? = some ⟨.read ⟨8, false⟩ (.run (.sleep ⟨false, 0⟩)), false⟩ ∧
    PendingWake s .readq := by
  have hrun : (machine.replay Sys.fresh sleepTrial).map (fun p => (p.2.dev.fifo, p.2.callers[0]?))
      = some ([52], some ⟨.read ⟨8, false⟩ (.run (.sleep ⟨false, 0⟩)), false⟩) := by decide
  obtain ⟨tr, s, hr, heq⟩ := Lts.exists_run_of_replay (M := machine) rfl hrun
  simp only [Prod.mk.injEq] at heq
  refine ⟨tr, s, hr, heq.1, heq.2, ?_⟩
  have := (no_lost_wakeup hr).reader 0 _ _ _ heq.2 rfl (.inl (by simp [heq.1]))
  exact this.resolve_left (by decide)

end VDevLab.Kernel
