import VDevLab.Kernel.Linearizable
import VDevLab.Tools.Ctl

/-!
# What `get` reports

Tools run beside readers, writers and other tools. The calls they make are
operations of the linearized device, so what `get` prints is decided by the
operations that come before it in that sequence: the record that was stored
last, less the occurrences that reads have used up since.
-/

namespace VDevLab.Kernel

open Linear

/-! ## The record, from what the callers see -/

/-- The record that an operation stored, by its arguments and its result. -/
def stored (e : Entry Nat Op Result) : Option FaultConfig :=
  match e.op, e.res with
  | .ioctl (.setFault config), .ioctl r => if r.ret = 0 then (validateFault config).toOption else none
  | .ioctl .clearFault, _ => some clearFaultLocked
  | .ioctl .reset, _ => some clearFaultLocked
  | _, _ => none

/-- The operation is a read that failed with EIO. -/
def failsEio (e : Entry Nat Op Result) : Bool :=
  match e.res with
  | .read r => r.ret = - EIO
  | _ => false

def recordStep (fault : FaultConfig) (e : Entry Nat Op Result) : FaultConfig :=
  match stored e with
  | some config => config
  | none => if failsEio e then takeOccurrence fault else fault

/-- The record behind a sequence of operations. -/
def recordAfter (L : List (Entry Nat Op Result)) (fault : FaultConfig) : FaultConfig :=
  L.foldl recordStep fault

theorem ReadAtomically.record {a : ReadArgs} {d d' : Device} {res : ReadResult}
    (h : ReadAtomically a d res d') :
    d'.fault = if res.ret = - EIO then takeOccurrence d.fault else d.fault := by
  cases h with
  | zero => rfl
  | again => rfl
  | failed => rfl
  | gone => rfl
  | interrupted he => rcases he with rfl | rfl <;> rfl
  | @moved n =>
    have hn : ¬ ((n : Int) = - EIO) := by
      show ¬ ((n : Int) = -5)
      omega
    exact (if_neg hn).symm
  | unmoved => rfl

theorem validateFault_ret {config : FaultConfig} {e : Int} (h : validateFault config = .error e) :
    e = -EINVAL := by
  unfold validateFault at h
  repeat' split at h
  all_goals cases h
  all_goals rfl

theorem Atomically.record {d d' : Device} {i : Nat} {op : Op} {r : Result}
    (h : Atomically d op r d') : d'.fault = recordStep d.fault ⟨i, op, r⟩ := by
  cases h with
  | read h =>
    rw [h.record]
    simp [recordStep, stored, failsEio]
  | write h => cases h <;> rfl
  | poll => rfl
  | ioctl h =>
    cases h with
    | set hv => simp [recordStep, stored, hv, Except.toOption]
    | refused hv =>
      cases validateFault_ret hv
      rfl
    | unreadable => rfl
    | get => rfl
    | unwritable => rfl
    | clear => rfl
    | reset => rfl
    | other => rfl

theorem legal_record {L : List (Entry Nat Op Result)} {d d' : Device}
    (h : sequentialDevice.Legal d L d') : d'.fault = recordAfter L d.fault := by
  induction h with
  | nil => rfl
  | @snoc L t e u hl hs ih =>
    rw [Atomically.record (i := e.id) hs, ih, recordAfter, recordAfter, List.foldl_append]
    rfl

/-- A read fails with EIO only under an EIO fault. -/
theorem Atomically.failsEio {d d' : Device} {e : Entry Nat Op Result}
    (h : Atomically d e.op e.res d') (hfail : failsEio e = true) : d.fault.type = faultEio := by
  obtain ⟨i, op, r⟩ := e
  cases h with
  | read h =>
    have hret := of_decide_eq_true hfail
    cases h with
    | failed ht => exact ht
    | @moved n =>
      have hn : ((n : Int) = -5) := hret
      omega
    | interrupted he => rcases he with rfl | rfl <;> exact absurd hret (by decide)
    | zero => exact absurd hret (by decide)
    | again => exact absurd hret (by decide)
    | gone => exact absurd hret (by decide)
    | unmoved => exact absurd hret (by decide)
  | write => cases hfail
  | poll => cases hfail
  | ioctl => cases hfail

/-! ## Between two operations -/

/-- What `k` reads that fail with EIO make of a record. -/
inductive Lowered (config : FaultConfig) : Nat → FaultConfig → Prop
  | whole : Lowered config 0 config
  | part {k : Nat} {m : UInt32} (ht : config.type = faultEio) (hm : m ≠ 0)
      (hk : m.toNat + k = remaining config) : Lowered config k ⟨faultEio, m, 0, 0⟩
  | spent {k : Nat} (ht : config.type = faultEio) (hk : k = remaining config) :
      Lowered config k clearFaultLocked

theorem Lowered.take {config : FaultConfig} (ht : config.type = faultEio) {k : Nat} {m : UInt32}
    (hm : m ≠ 0) (hk : m.toNat + k = remaining config) :
    Lowered config (k + 1) (takeOccurrence ⟨faultEio, m, 0, 0⟩) := by
  have hpred := toNat_pred hm
  unfold takeOccurrence
  by_cases hlast : m - 1 = 0
  · rw [if_pos hlast]
    rw [hlast, UInt32.toNat_zero] at hpred
    exact .spent ht (by omega)
  · rw [if_neg hlast]
    have hleft : (m - 1).toNat + (k + 1) = remaining config := by omega
    exact .part ht hlast hleft

/-- A read that fails takes one occurrence; anything else that stores nothing
leaves the record. -/
theorem Lowered.step {config : FaultConfig} (hc : Canonical config) {k : Nat} {d d' : Device}
    (h : Lowered config k d.fault) {e : Entry Nat Op Result}
    (hs : sequentialDevice.step d e.op e.res d') (hstored : stored e = none) :
    Lowered config (k + if failsEio e then 1 else 0) d'.fault := by
  have hrecord : d'.fault = recordStep d.fault e := Atomically.record (i := e.id) hs
  rw [hrecord, recordStep, hstored]
  simp only
  by_cases hfail : failsEio e = true
  · rw [if_pos hfail, if_pos hfail]
    have heio : d.fault.type = faultEio := Atomically.failsEio hs hfail
    generalize d.fault = fault at h heio
    cases h with
    | whole =>
      obtain ⟨n, hn, -, hconfig⟩ := hc.of_eio heio
      have hall : n.toNat + 0 = remaining config := by rw [hconfig]; rfl
      have htake := Lowered.take heio hn hall
      rwa [← hconfig] at htake
    | part ht hm hk => exact Lowered.take ht hm hk
    | spent => exact absurd heio (by decide)
  · rw [if_neg hfail, if_neg hfail]
    exact h

theorem Lowered.run {config : FaultConfig} (hc : Canonical config)
    {L : List (Entry Nat Op Result)} {d d' : Device} (hd : d.fault = config)
    (h : sequentialDevice.Legal d L d') (hstored : ∀ e ∈ L, stored e = none) :
    Lowered config (L.countP failsEio) d'.fault := by
  induction h with
  | nil => exact hd ▸ .whole
  | @snoc L t e u _ hs ih =>
    have hrest := ih (fun e' he' => hstored e' (List.mem_append_left _ he'))
    rw [List.countP_append, List.countP_singleton]
    exact hrest.step hc hs (hstored e (by simp))

end VDevLab.Kernel

namespace VDevLab.Tools

open PyStr Kernel Linear

/-- The line about a record after `k` reads that failed. -/
def loweredText (config : FaultConfig) (k : Nat) : PyStr :=
  if k = 0 then faultText config
  else if k = remaining config then py "fault=none\n"
  else py "fault=eio remaining=" ++ decimal (remaining config - k) ++ py "\n"

theorem faultText_eio (n : UInt32) :
    faultText ⟨faultEio, n, 0, 0⟩ = py "fault=eio remaining=" ++ decimal n.toNat ++ py "\n" := by
  have htext : py "fault=eio remaining=" = py "fault=" ++ py "eio" ++ py " remaining=" := by decide
  have hname : faultName faultEio = py "eio" := rfl
  simp only [faultText]
  rw [hname, if_true, if_neg (by decide), if_neg (by decide), htext]
  simp only [List.append_assoc, List.nil_append]

theorem lowered_text {config fault : FaultConfig} (hc : Canonical config) {k : Nat}
    (h : Lowered config k fault) : k ≤ remaining config ∧ faultText fault = loweredText config k := by
  cases h with
  | whole => exact ⟨Nat.zero_le _, rfl⟩
  | @part k m ht hm hk =>
    have hpos : m.toNat ≠ 0 := fun h0 => hm (UInt32.toNat_inj.mp h0)
    refine ⟨by omega, ?_⟩
    unfold loweredText
    by_cases hk0 : k = 0
    · obtain ⟨n, -, -, hconfig⟩ := hc.of_eio ht
      have hleft : remaining config = n.toNat := by rw [hconfig]; rfl
      have hmn : m = n := UInt32.toNat_inj.mp (by omega)
      rw [if_pos hk0, hconfig, hmn]
    · rw [if_neg hk0, if_neg (by omega), faultText_eio]
      have hleft : m.toNat = remaining config - k := by omega
      rw [hleft]
  | spent ht hk =>
    obtain ⟨n, hn, -, hconfig⟩ := hc.of_eio ht
    have hleft : remaining config = n.toNat := by rw [hconfig]; rfl
    have hpos : n.toNat ≠ 0 := fun h0 => hn (UInt32.toNat_inj.mp h0)
    refine ⟨by omega, ?_⟩
    rw [loweredText, if_neg (by omega), if_pos hk]
    rfl

/-! ## The tool on the device -/

/-- A run of the tool made the call that is this operation, which succeeded,
and ended so. -/
def Served (e : Entry Nat Op Result) (cmd : IoctlCmd) (x : Exit) : Prop :=
  ∃ prog args done r, main prog args none = .ioctl cmd done ∧ e.op = .ioctl cmd ∧
    e.res = .ioctl r ∧ 0 ≤ r.ret ∧ x = done r

theorem call_done {cmd cmd' : IoctlCmd} {name : String} {print : IoctlResult → PyStr}
    {done : IoctlResult → Exit} (h : call cmd name print = .ioctl cmd' done) {r : IoctlResult}
    (hr : 0 ≤ r.ret) : done r = ⟨0, print r, []⟩ := by
  cases h
  exact if_neg (by omega)

theorem main_get {prog : PyStr} {args : List PyStr} {done : IoctlResult → Exit}
    (h : main prog args none = .ioctl .getFault done) {r : IoctlResult} (hr : 0 ≤ r.ret) :
    done r = ⟨0, faultText (r.config.getD ⟨0, 0, 0, 0⟩), []⟩ := by
  have hcmd := main_ioctl_iff.mp ⟨done, h⟩
  cases hcmd with
  | get extra =>
    rw [main, command, if_pos rfl] at h
    exact call_done h hr

theorem main_set {prog : PyStr} {args : List PyStr} {config : FaultConfig}
    {done : IoctlResult → Exit} (h : main prog args none = .ioctl (.setFault config) done)
    {r : IoctlResult} (hr : 0 ≤ r.ret) : done r = ⟨0, faultText config, []⟩ := by
  have hcmd := main_ioctl_iff.mp ⟨done, h⟩
  obtain ⟨args, rfl⟩ : ∃ rest, args = py "set" :: rest := by
    cases hcmd <;> exact ⟨_, rfl⟩
  rw [main, command, if_neg (by decide), if_neg (by decide), if_neg (by decide), if_pos rfl,
    setArguments_eq_ok.mpr hcmd] at h
  exact call_done h hr

theorem Served.set {e : Entry Nat Op Result} {config : FaultConfig} {x : Exit}
    (h : Served e (.setFault config) x) {d d' : Device}
    (hs : sequentialDevice.step d e.op e.res d') :
    x = ⟨0, faultText config, []⟩ ∧ Canonical config ∧ d'.fault = config := by
  obtain ⟨prog, args, done, r, hasked, hop, hres, hr, rfl⟩ := h
  have hc : Canonical config := (main_ioctl_iff.mp ⟨done, hasked⟩).canonical
  refine ⟨main_set hasked hr, hc, ?_⟩
  rw [hop, hres] at hs
  cases hs with
  | ioctl hs =>
    cases hs with
    | set hv =>
      rw [hc.validateFault] at hv
      cases hv
      rfl
    | refused hv =>
      rw [hc.validateFault] at hv
      cases hv
    | unreadable => exact absurd hr (by decide)

theorem Served.get {e : Entry Nat Op Result} {x : Exit} (h : Served e .getFault x)
    {d d' : Device} (hs : sequentialDevice.step d e.op e.res d') :
    x = ⟨0, faultText d.fault, []⟩ := by
  obtain ⟨prog, args, done, r, hasked, hop, hres, hr, rfl⟩ := h
  rw [main_get hasked hr]
  rw [hop, hres] at hs
  cases hs with
  | ioctl hs =>
    cases hs with
    | get => rfl
    | unwritable => exact absurd hr (by decide)

/-- However calls overlap, they have an order in which every `get` prints the
record that the operations before it leave. -/
theorem ctl_get_reports {tr : List (Move Sys Label)} {s : Sys} (h : machine.Run tr s) :
    ∃ L, Linearization sequentialDevice .fresh (history tr) L s.dev ∧
      ∀ L₁ e L₂ x, L = L₁ ++ e :: L₂ → Served e .getFault x →
        x = ⟨0, faultText (recordAfter L₁ clearFaultLocked), []⟩ := by
  obtain ⟨L, hL⟩ := machine_linearized (p := fun _ => True) h (by simp)
  refine ⟨L, hL.linearization, ?_⟩
  intro L₁ e L₂ x hcut hserved
  obtain ⟨d, d', hfront, hstep, -⟩ := hL.linearization.legal.entry hcut
  rw [hserved.get hstep, legal_record hfront]
  rfl

/-- A tool sets a fault, a read fails, and another tool asks. -/
def countdown : List Label :=
  [.invoke (.ioctl (.setFault ⟨faultEio, 2, 0, 0⟩)), .step 0 { reach := 16 }, .step 0 {},
    .invoke (.read ⟨8, true⟩), .step 1 {}, .step 0 {}, .step 1 {}, .step 0 {}, .step 0 {},
    .step 1 {}, .invoke (.ioctl .getFault), .step 2 {}, .step 2 { reach := 16 }, .step 2 {}]

/-- What the callers of it see. -/
def countdownHistory : List (Linear.Event Nat Op Result) :=
  [.invoke 0 (.ioctl (.setFault ⟨faultEio, 2, 0, 0⟩)), .invoke 1 (.read ⟨8, true⟩),
    .respond 0 (.ioctl ⟨0, none⟩), .respond 1 (.read ⟨-5, []⟩), .invoke 2 (.ioctl .getFault),
    .respond 2 (.ioctl ⟨0, some ⟨faultEio, 1, 0, 0⟩⟩)]

theorem ctl_get_reports_countdown : ∃ tr s, machine.Run tr s ∧ history tr = countdownHistory ∧
    ∃ L, Linearization sequentialDevice .fresh (history tr) L s.dev ∧
      ∀ L₁ e L₂ x, L = L₁ ++ e :: L₂ → Served e .getFault x →
        x = ⟨0, faultText (recordAfter L₁ clearFaultLocked), []⟩ := by
  have hrun : (machine.replay .fresh countdown).map (fun p => history p.1) =
      some countdownHistory := rfl
  obtain ⟨tr, s, hr, heq⟩ := Lts.exists_run_of_replay (M := machine) rfl hrun
  exact ⟨tr, s, hr, heq, ctl_get_reports hr⟩

/-- Between a `set` and a `get` with no other store, the fault only counts
down: one for each read that fails with EIO. -/
theorem ctl_get_after_set {tr : List (Move Sys Label)} {s : Sys} (h : machine.Run tr s) :
    ∃ L, Linearization sequentialDevice .fresh (history tr) L s.dev ∧
      ∀ L₁ set M get L₂ config x y, L = L₁ ++ set :: (M ++ get :: L₂) →
        Served set (.setFault config) x → (∀ e ∈ M, stored e = none) → Served get .getFault y →
        M.countP failsEio ≤ remaining config ∧ x = ⟨0, faultText config, []⟩ ∧
          y = ⟨0, loweredText config (M.countP failsEio), []⟩ := by
  obtain ⟨L, hL⟩ := machine_linearized (p := fun _ => True) h (by simp)
  refine ⟨L, hL.linearization, ?_⟩
  intro L₁ set M get L₂ config x y hcut hset hstored hget
  obtain ⟨d, d₁, -, hsetStep, hrest⟩ := hL.linearization.legal.entry hcut
  obtain ⟨hx, hc, hd₁⟩ := hset.set hsetStep
  obtain ⟨d₂, d₃, hbetween, hgetStep, -⟩ := hrest.entry rfl
  obtain ⟨hle, htext⟩ := lowered_text hc (Lowered.run hc hd₁ hbetween hstored)
  refine ⟨hle, hx, ?_⟩
  rw [hget.get hgetStep, htext]

theorem ctl_get_after_set_countdown : ∃ tr s, machine.Run tr s ∧ history tr = countdownHistory ∧
    ∃ L, Linearization sequentialDevice .fresh (history tr) L s.dev ∧
      ∀ L₁ set M get L₂ config x y, L = L₁ ++ set :: (M ++ get :: L₂) →
        Served set (.setFault config) x → (∀ e ∈ M, stored e = none) → Served get .getFault y →
        M.countP failsEio ≤ remaining config ∧ x = ⟨0, faultText config, []⟩ ∧
          y = ⟨0, loweredText config (M.countP failsEio), []⟩ := by
  have hrun : (machine.replay .fresh countdown).map (fun p => history p.1) =
      some countdownHistory := rfl
  obtain ⟨tr, s, hr, heq⟩ := Lts.exists_run_of_replay (M := machine) rfl hrun
  exact ⟨tr, s, hr, heq, ctl_get_after_set hr⟩

end VDevLab.Tools
