import VDevLab.Kernel.EioLedger
import VDevLab.Kernel.Stream
import VDevLab.Monitor.World

/-!
# The injected fault and the monitor's reads

What the single `SET_FAULT(EIO, n)` and the monitor's system calls can do to
each other. The fault goes through three stages: not stored yet, active with
`n - k` occurrences left, and spent. A read of the monitor that got past its
fault check did so before the first occurrence was consumed or after the
last one, since it is the only reader and makes one call at a time.
-/

namespace VDevLab.Kernel

/-! ## Steps of single calls -/

/-- What a control call has injected stays injected. -/
theorem CallMove.injected_ne_zero {d : Device} {ch : Choice} {woken : Bool} {c : Call}
    {e : Effect Call} (h : CallMove d ch woken c e) (hc : c.injected ≠ 0) :
    e.ctl.injected ≠ 0 := by
  cases h with
  | @ioctl cmd pc e hm =>
    cases cmd with
    | setFault config =>
      cases pc with
      | wakeRead => cases hm; simpa [Call.injected, ioctlSucceeded, Effect.map] using hc
      | wakeWrite => cases hm; simpa [Call.injected, ioctlSucceeded, Effect.map] using hc
      | _ => simp [Call.injected, ioctlSucceeded] at hc
    | _ => exact absurd rfl hc
  | @ioctlReturn cmd res =>
    cases cmd with
    | setFault config => simpa [Call.injected, ioctlSucceeded] using hc
    | _ => exact absurd rfl hc
  | _ => exact absurd rfl hc

/-- A call with a result only returns it. -/
theorem CallMove.committed {a : ReadArgs} {d : Device} {ch : Choice} {woken : Bool}
    {ctl : Ctl ReadPc ReadResult} {res : ReadResult} (hctl : ctl.committed = some res)
    {e : Effect Call} (h : CallMove d ch woken (.read a ctl) e) :
    ∃ ctl', e = ⟨d, none, woken, .read a ctl'⟩ ∧ ctl'.committed = some res := by
  cases h with
  | read hm => cases hctl
  | readReturn => exact ⟨_, rfl, hctl⟩

theorem Call.samplesFault_of_committed {a : ReadArgs} {ctl : Ctl ReadPc ReadResult} {res : ReadResult}
    (h : ctl.committed = some res) : (Call.read a ctl).samplesFault = false := by
  cases ctl with
  | run pc => cases h
  | _ => rfl

/-- A read without a result has not failed. -/
theorem Call.returnsEio_of_readResult {c : Call} (h : c.readResult = none) :
    c.returnsEio = false := by
  cases c with
  | read a ctl =>
    cases ctl with
    | run pc => rfl
    | _ => cases h
  | _ => rfl

/-- The read goes past the fault check or fails there. -/
theorem ReadMove.sampling {a : ReadArgs} {d : Device} {ch : Choice} {woken : Bool} {l : ReadLocals}
    {e : Effect (Ctl ReadPc ReadResult)} (h : ReadMove a d ch woken (.fault l) e)
    (hd : Canonical d.fault) :
    (d.fault.type = faultEio → e.ctl = .exit (.error EIO)) ∧
    (d.fault = clearFaultLocked → e.ctl = .run (.lock l)) := by
  -- what `vdevlab_apply_read_fault` returns in the two states of the record
  have hsample : d.fault.type = faultEio →
      (applyReadFault d.fault l).delayMs = 0 ∧ (applyReadFault d.fault l).ret = - EIO := by
    intro ht
    rcases applyReadFault_cases hd l with ⟨-, -, heq⟩ | ⟨hne, -, -⟩
    · rw [heq]
      exact ⟨rfl, rfl⟩
    · exact absurd ht hne
  have hclear : d.fault = clearFaultLocked → applyReadFault d.fault l = ⟨d.fault, l, 0, 0⟩ := by
    intro hf
    rw [hf]
    rfl
  cases h with
  | sampleDelay hs hdelay =>
    subst hs
    refine ⟨fun ht => absurd (hsample ht).1 hdelay, fun hf => ?_⟩
    rw [hclear hf] at hdelay
    exact absurd rfl hdelay
  | sampleFail hs hdelay hret =>
    subst hs
    refine ⟨fun ht => ?_, fun hf => ?_⟩
    · rw [(hsample ht).2]
      rfl
    · rw [hclear hf] at hret
      exact absurd rfl hret
  | samplePass hs hdelay hret =>
    subst hs
    refine ⟨fun ht => ?_, fun hf => ?_⟩
    · rw [(hsample ht).2] at hret
      exact absurd hret (by decide)
    · rw [hclear hf]

/-- The locked section of a non-blocking read without signals and with a
buffer that can be written: no data, or all that can be had. -/
theorem ReadMove.locked {a : ReadArgs} {d : Device} {ch : Choice} {woken : Bool} {l : ReadLocals}
    {e : Effect (Ctl ReadPc ReadResult)} (h : ReadMove a d ch woken (.lock l) e)
    (hcount : a.count ≠ 0) (hnonblock : a.nonblock = true) (hsignal : ch.signal = false)
    (hreach : a.count ≤ ch.reach) :
    (e.ctl = .exit (.error EAGAIN) ∧ (Call.read a (.run (.lock l))).delivers d ch = []) ∨
    ∃ bytes, bytes ≠ [] ∧ e.ctl = .run (.wake ⟨bytes.length, bytes⟩) ∧
      (Call.read a (.run (.lock l))).delivers d ch = bytes := by
  cases h with
  | lockInterrupted hs => rw [hsignal] at hs; cases hs
  | again hs he =>
    refine .inl ⟨rfl, ?_⟩
    simp [Call.delivers, he]
  | block _ _ hn => rw [hnonblock] at hn; cases hn
  | @dequeue _ c hs he hcopy hmoved =>
    subst hcopy
    have hlen := @readDequeue_length a d l ch.reach
    refine .inr ⟨d.fifo.take (userCopy (readToCopy a d l) ch.reach).copied, ?_, ?_, ?_⟩
    · rw [ne_eq, ← List.length_eq_zero_iff, hlen]
      exact hmoved
    · simp only [readDequeue, copyResult_moved hmoved, hlen]
    · simp [Call.delivers, hs, he]
  | copyFault hs he hcopy hmoved =>
    subst hcopy
    -- the buffer can be written, so a copy of nothing was asked for
    have hle := readToCopy_le_count a d l
    have hne := readToCopy_ne_zero l hcount he
    have hmin : min (readToCopy a d l) ch.reach = 0 := hmoved
    omega

end VDevLab.Kernel

namespace VDevLab.Monitor

open Kernel

/-! ## The stages of the fault -/

/-- The control call has stored its fault. -/
def World.Armed (w : World) : Prop :=
  ∃ j c, w.control = some j ∧ w.sys.callAt j = some c ∧ c.injected ≠ 0

inductive Stage (n : Nat) (w : World) : Prop
  | waiting : eioReturns w.sys = 0 → w.sys.dev.fault = clearFaultLocked → Stage n w
  | active : w.Armed → eioReturns w.sys < n → w.sys.dev.fault.type = faultEio →
      eioReturns w.sys + remaining w.sys.dev.fault = n → Stage n w
  | spent : w.Armed → eioReturns w.sys = n → w.sys.dev.fault = clearFaultLocked → Stage n w

theorem Stage.le {n : Nat} {w : World} (h : Stage n w) : eioReturns w.sys ≤ n := by
  cases h with
  | waiting h0 => omega
  | active _ hlt => omega
  | spent _ heq => omega

/-- When nothing is injected, no occurrence or all of them were consumed. -/
theorem Stage.of_not_eio {n : Nat} {w : World} (h : Stage n w)
    (ht : w.sys.dev.fault.type ≠ faultEio) :
    w.sys.dev.fault = clearFaultLocked ∧ (eioReturns w.sys = 0 ∨ eioReturns w.sys = n) := by
  cases h with
  | waiting h0 hf => exact ⟨hf, .inl h0⟩
  | active _ _ ht' => exact absurd ht' ht
  | spent _ heq hf => exact ⟨hf, .inr heq⟩

theorem World.Armed.after {w : World} (h : w.Armed) {i : Nat} {ch : Choice} {c : Caller}
    {e : Effect Call} (hc : w.sys.callers[i]? = some c)
    (hm : CallMove w.sys.dev ch c.woken c.call e) :
    World.Armed { w with sys := w.sys.after i e } := by
  obtain ⟨j, b, hj, hb, hinj⟩ := h
  by_cases hij : i = j
  · subst hij
    cases (Sys.callAt_of hc).symm.trans hb
    exact ⟨i, e.ctl, hj, by rw [Sys.callAt_after hc, if_pos rfl], hm.injected_ne_zero hinj⟩
  · exact ⟨j, b, hj, by rw [Sys.callAt_after hc, if_neg hij]; exact hb, hinj⟩

/-- The call is about to store the injected fault. -/
def World.Stores (n : UInt32) (w : World) (i : Nat) (c : Call) : Prop :=
  w.control = some i ∧ ∃ config stored, c = .ioctl (.setFault config) (.run (.store stored)) ∧
    validateFault config = .ok stored ∧ config.type = faultEio ∧ config.repeats = n

/-- A step of any call keeps the stages, if only the control call stores. -/
theorem Stage.after {n : UInt32} (hn : n ≠ 0) {w : World} (h : Stage n.toNat w) (hi : w.sys.Inv)
    {i : Nat} {ch : Choice} {c : Caller} {e : Effect Call} (hc : w.sys.callers[i]? = some c)
    (hm : CallMove w.sys.dev ch c.woken c.call e)
    (hstore : c.call.replacesFault = true → w.Stores n i c.call) :
    Stage n.toNat { w with sys := w.sys.after i e } := by
  have harmed : w.Armed → World.Armed { w with sys := w.sys.after i e } :=
    fun ha => ha.after hc hm
  have hfault : (w.sys.after i e).dev.fault = e.dev.fault := rfl
  rcases eioReturns_step hi hc hm with ⟨hs, ht, -, -, hk⟩ | ⟨hns, -, hk⟩
  · obtain ⟨-, -, hr, he⟩ := (hm.fault_cases hi.fault).resolve_right (fun hn => hn.1 ⟨hs, ht⟩)
    have hrem := remaining_takeOccurrence ht hr
    cases h with
    | waiting _ hf => rw [hf] at ht; exact absurd ht (by decide)
    | spent _ _ hf => rw [hf] at ht; exact absurd ht (by decide)
    | active ha hlt _ hsum =>
      by_cases hlast : remaining w.sys.dev.fault = 1
      · refine .spent (harmed ha) ?_ ?_
        · show eioReturns (w.sys.after i e) = n.toNat
          omega
        · rw [hfault, he, takeOccurrence_last ht hlast]
      · refine .active (harmed ha) ?_ ?_ ?_
        · show eioReturns (w.sys.after i e) < n.toNat
          omega
        · rw [hfault, he]
          by_contra hne
          have hzero : remaining (takeOccurrence w.sys.dev.fault) = 0 := if_neg hne
          omega
        · show eioReturns (w.sys.after i e) + remaining e.dev.fault = n.toNat
          rw [he]
          omega
  · have hcount : eioReturns (w.sys.after i e) = eioReturns w.sys := hk
    rcases ((hm.fault_cases hi.fault).resolve_left (fun hp => hns ⟨hp.1, hp.2.1⟩)).2 with he | hr
    · cases h with
      | waiting h0 hf => exact .waiting (hcount.trans h0) (hfault.trans (he.trans hf))
      | active ha hlt ht hsum =>
        refine .active (harmed ha) (hcount ▸ hlt) (by rw [hfault, he]; exact ht) ?_
        show eioReturns (w.sys.after i e) + remaining e.dev.fault = n.toNat
        rw [hcount, he]
        exact hsum
      | spent ha heq hf => exact .spent (harmed ha) (hcount.trans heq) (hfault.trans (he.trans hf))
    · obtain ⟨hcontrol, config, stored, hcall, hv, ht, hrep⟩ := hstore hr
      -- before its store the control call has not injected anything
      have hunarmed : ¬ w.Armed := by
        intro h
        obtain ⟨j, c', hj, hc', hinj⟩ := h
        cases Option.some.inj (hcontrol.symm.trans hj)
        cases (Sys.callAt_of hc).symm.trans hc'
        rw [hcall] at hinj
        exact hinj (by simp [Call.injected, ioctlSucceeded])
      cases h with
      | active ha => exact absurd ha hunarmed
      | spent ha => exact absurd ha hunarmed
      | waiting h0 _ =>
        rw [hcall] at hm
        have hpos : n.toNat ≠ 0 := toNat_ne_zero hn
        cases hm with
        | ioctl hm =>
          cases hm
          have htype : stored.type = faultEio := (validateFault_canonical hv).2.trans ht
          refine .active ⟨i, _, hcontrol, by rw [Sys.callAt_after hc, if_pos rfl], ?_⟩ ?_ ?_ ?_
          · simp [Call.injected, ioctlSucceeded, Effect.map, ht, hrep, hpos]
          · rw [hcount, h0]
            omega
          · exact htype
          · show _ + remaining stored = _
            rw [hcount, h0, remaining, if_pos htype, validateFault_repeats hv ht, hrep]
            omega

/-! ## The calls of the others -/

/-- A call that is not the monitor's one in progress: a write, the control
call, or a call of the monitor that has returned. -/
inductive Background (n : UInt32) (control : Option Nat) (i : Nat) : Call → Prop
  | write {a ctl} : Background n control i (.write a ctl)
  | control {config ctl} : control = some i → config.type = faultEio → config.repeats = n →
      Background n control i (.ioctl (.setFault config) ctl)
  | read {a res} : Background n control i (.read a (.returned res))
  | poll {events res} : Background n control i (.poll events (.returned res))

/-- What a step of such a call leaves alone. -/
theorem Background.step {n : UInt32} {control : Option Nat} {i : Nat} {c : Call}
    (h : Background n control i c) {d : Device} {ch : Choice} {woken : Bool} {e : Effect Call}
    (hm : CallMove d ch woken c e) :
    Background n control i e.ctl ∧ c.samplesFault = false ∧ c.delivers d ch = [] ∧
      c.resets = false := by
  cases h with
  | write => cases hm <;> exact ⟨.write, rfl, rfl, rfl⟩
  | control hi ht hr =>
    cases hm with
    | ioctl hm => exact ⟨.control hi ht hr, rfl, rfl, rfl⟩
    | ioctlReturn => exact ⟨.control hi ht hr, rfl, rfl, rfl⟩
  | read => cases hm
  | poll => cases hm

/-- The only store among them is that of the control call. -/
theorem Background.stores {n : UInt32} {w : World} {i : Nat} {c : Call}
    (h : Background n w.control i c) (hwf : c.Wf) (hr : c.replacesFault = true) :
    w.Stores n i c := by
  cases h with
  | @control config ctl hi ht hrep =>
    refine ⟨hi, config, ?_⟩
    cases ctl with
    | run pc =>
      cases pc with
      | store stored =>
        obtain ⟨config', hcmd, hv⟩ := hwf
        cases hcmd
        exact ⟨stored, rfl, hv, ht, hrep⟩
      | _ => simp [Call.replacesFault] at hr
    | _ => simp [Call.replacesFault] at hr
  | _ => simp [Call.replacesFault] at hr

/-! ## The monitor's call in progress -/

/-- How far the monitor's call is, with `k` occurrences consumed. -/
inductive Flight (n k : Nat) : Pc → Call → Prop
  | poll {ctl} : Flight n k .polling (.poll EPOLLIN ctl)
  | start : Flight n k .reading (.read monitorRead (.run .start))
  | sampling {l} : Flight n k .reading (.read monitorRead (.run (.fault l)))
  | passed {l} : (k = 0 ∨ k = n) → Flight n k .reading (.read monitorRead (.run (.lock l)))
  | dequeued {bytes} : (k = 0 ∨ k = n) → bytes ≠ [] →
      Flight n k .reading (.read monitorRead (.run (.wake ⟨bytes.length, bytes⟩)))
  | again {ctl} : (k = 0 ∨ k = n) → ctl.committed = some (.error Kernel.EAGAIN) →
      Flight n k .reading (.read monitorRead ctl)
  | data {ctl bytes} : (k = 0 ∨ k = n) → bytes ≠ [] →
      ctl.committed = some ⟨bytes.length, bytes⟩ → Flight n k .reading (.read monitorRead ctl)
  | eio {ctl} : ctl.committed = some (.error Kernel.EIO) → Flight n k .reading (.read monitorRead ctl)

theorem Flight.no_control {n k : Nat} {pc : Pc} {c : Call} (h : Flight n k pc c) :
    c.replacesFault = false ∧ c.resets = false := by
  cases h <;> exact ⟨rfl, rfl⟩

/-- One step of the monitor's call; `k'` is the number of occurrences
consumed after it. -/
theorem Flight.step {n : Nat} {w : World} {pc : Pc} {c : Caller} {i : Nat} {ch : Choice}
    {e : Effect Call} (h : Flight n (eioReturns w.sys) pc c.call) (hi : w.sys.Inv)
    (hstage : Stage n w) (hc : w.sys.callers[i]? = some c) (hsignal : ch.signal = false)
    (hreach : monitorRead.count ≤ ch.reach) (hm : CallMove w.sys.dev ch c.woken c.call e) :
    Flight n (eioReturns (w.sys.after i e)) pc e.ctl := by
  rcases eioReturns_step hi hc hm with ⟨hs, ht, -, -, hk⟩ | ⟨hns, -, hk⟩
  · generalize hcall : c.call = call at h hm hs
    cases h with
    | sampling =>
      cases hm with
      | @read _ _ e hm =>
        refine .eio ?_
        show e.ctl.committed = _
        rw [(hm.sampling hi.fault).1 ht]
        rfl
    | again _ hctl => rw [Call.samplesFault_of_committed hctl] at hs; cases hs
    | data _ _ hctl => rw [Call.samplesFault_of_committed hctl] at hs; cases hs
    | eio hctl => rw [Call.samplesFault_of_committed hctl] at hs; cases hs
    | _ => cases hs
  · rw [hk]
    generalize hcall : c.call = call at h hm hns
    cases h with
    | poll => cases hm <;> exact .poll
    | start =>
      cases hm with
      | read hm =>
        cases hm with
        | zero h0 => cases h0
        | enter => exact .sampling
    | sampling =>
      cases hm with
      | @read _ _ e hm =>
        -- past the fault check: nothing was injected yet, or all is consumed
        have ht : w.sys.dev.fault.type ≠ faultEio := fun ht => hns ⟨rfl, ht⟩
        obtain ⟨hclear, hk0⟩ := hstage.of_not_eio ht
        show Flight n _ _ (.read monitorRead e.ctl)
        rw [(hm.sampling hi.fault).2 hclear]
        exact .passed hk0
    | passed hk0 =>
      cases hm with
      | @read _ _ e hm =>
        show Flight n _ _ (.read monitorRead e.ctl)
        rcases hm.locked (by decide) rfl hsignal hreach with ⟨he, -⟩ | ⟨bytes, hne, he, -⟩
        · rw [he]
          exact .again hk0 rfl
        · rw [he]
          exact .dequeued hk0 hne
    | dequeued hk0 hne =>
      cases hm with
      | read hm =>
        cases hm
        exact .data hk0 hne rfl
    | again hk0 hctl =>
      obtain ⟨ctl', rfl, hctl'⟩ := CallMove.committed hctl hm
      exact .again hk0 hctl'
    | data hk0 hne hctl =>
      obtain ⟨ctl', rfl, hctl'⟩ := CallMove.committed hctl hm
      exact .data hk0 hne hctl'
    | eio hctl =>
      obtain ⟨ctl', rfl, hctl'⟩ := CallMove.committed hctl hm
      exact .eio hctl'

end VDevLab.Monitor
