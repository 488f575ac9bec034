import VDevLab.Kernel.FaultState
import VDevLab.Kernel.Stream

/-!
# Control calls are barriers

A read or write that is invoked after a control call has returned sees what
that call installed, at every one of its steps, as long as no other control
call is under way from the start of the first to the end of the second. Reads,
writes and polls that began earlier may interleave with both.

The rule is proved once, for any property of a call and of the steps it made
(`Barrier.induct`); what it means for each kind of fault follows.
-/

namespace VDevLab.Kernel

/-! ## The interval -/

/-- The call is a `SET_FAULT`, `CLEAR_FAULT` or `RESET` that has not
returned. -/
def Call.controls : Call → Bool
  | .ioctl _ (.returned _) => false
  | .ioctl (.setFault _) _ => true
  | .ioctl .clearFault _ => true
  | .ioctl .reset _ => true
  | _ => false

/-- No control call but `j` is under way. -/
def Sys.quiet (s : Sys) (j : Nat) : Bool :=
  (List.range s.callers.length).all fun k => k = j || (s.callAt k).all (!·.controls)

/-- The record that a successful control call installs. -/
def IoctlCmd.installs : IoctlCmd → FaultConfig
  | .setFault config => canonicalForm config
  | _ => clearFaultLocked

/-- A control call, from its invocation in `s₀` to its return, and behind it
an operation, from its invocation in `s₁` to the state `s`. In every state
that a step of the interval starts from, no other control call is under way. -/
structure Barrier (cmd : IoctlCmd) (op : Op) (s₀ : Sys) (tr₁ : List (Move Sys Label)) (s₁ : Sys)
    (tr₂ : List (Move Sys Label)) (s : Sys) : Prop where
  reachable : machine.Reachable s₀
  control : (machine.startingAt (s₀.invoked (.ioctl cmd))).Run tr₁ s₁
  returned : s₁.callAt s₀.callers.length = some (.ioctl cmd (.returned ⟨0, none⟩))
  operation : (machine.startingAt (s₁.invoked op)).Run tr₂ s
  quiet₁ : ∀ m ∈ tr₁, m.pre.quiet s₀.callers.length = true
  quiet₂ : ∀ m ∈ tr₂, m.pre.quiet s₀.callers.length = true

/-- A step of one call: what it saw, where it stood and where it went. -/
structure OwnStep where
  dev : Device
  ch : Choice
  woken : Bool
  call : Call
  after : Device
  next : Call

/-- The steps of caller `i`. -/
def ownSteps (i : Nat) (tr : List (Move Sys Label)) : List OwnStep :=
  tr.filterMap fun m =>
    match m.label with
    | .invoke _ => none
    | .step j ch =>
        if j = i then do
          let c ← m.pre.callers[i]?
          let next ← m.post.callAt i
          return ⟨m.pre.dev, ch, c.woken, c.call, m.post.dev, next⟩
        else none

theorem ownSteps_invoke (i : Nat) (tr : List (Move Sys Label)) (s t : Sys) (op : Op) :
    ownSteps i (tr ++ [⟨s, .invoke op, t⟩]) = ownSteps i tr := by
  simp [ownSteps]

theorem ownSteps_other {i j : Nat} (hij : j ≠ i) (ch : Choice) (tr : List (Move Sys Label))
    (s t : Sys) : ownSteps i (tr ++ [⟨s, .step j ch, t⟩]) = ownSteps i tr := by
  simp [ownSteps, hij]

theorem ownSteps_self {i : Nat} {ch : Choice} {s : Sys} {c : Caller}
    (hc : s.callers[i]? = some c) (tr : List (Move Sys Label)) (e : Effect Call) :
    ownSteps i (tr ++ [⟨s, .step i ch, s.after i e⟩]) =
      ownSteps i tr ++ [⟨s.dev, ch, c.woken, c.call, e.dev, e.ctl⟩] := by
  have hnext : (s.after i e).callAt i = some e.ctl := by
    rw [Sys.callAt_after hc, if_pos rfl]
  have hdev : (s.after i e).dev = e.dev := rfl
  unfold ownSteps
  rw [List.filterMap_append]
  simp [hc, hnext, hdev]

/-! ## The installed fault -/

/-- The record while `f` is installed: `f` itself or, under EIO, what the
reads have left of it. -/
def Under (f fault : FaultConfig) : Prop :=
  fault = f ∨ (f.type = faultEio ∧ (fault.type = faultEio ∨ fault = clearFaultLocked))

theorem Under.eq {f fault : FaultConfig} (h : Under f fault) (hf : f.type ≠ faultEio) :
    fault = f := by
  rcases h with h | ⟨h, -⟩
  · exact h
  · exact absurd h hf

theorem Under.connected {f fault : FaultConfig} (h : Under f fault)
    (hf : f.type ≠ faultDisconnect) : isDisconnected fault = false := by
  rw [isDisconnected, decide_eq_false_iff_not]
  rcases h with rfl | ⟨-, h | rfl⟩
  · exact hf
  · rw [h]
    decide
  · decide

/-- Only the steps of control calls take the fault away. -/
theorem CallMove.under {f : FaultConfig} {d : Device} {ch : Choice} {woken : Bool} {c : Call}
    {e : Effect Call} (h : CallMove d ch woken c e) (hd : Canonical d.fault)
    (hc : c.replacesFault = false) (hf : Under f d.fault) : Under f e.dev.fault := by
  rcases h.fault_cases hd with ⟨-, ht, -, he⟩ | ⟨-, he | hr⟩
  · -- an occurrence is taken from an EIO record
    have hfe : f.type = faultEio := by
      rcases hf with rfl | ⟨hfe, -⟩
      · exact ht
      · exact hfe
    refine .inr ⟨hfe, ?_⟩
    rw [he, takeOccurrence]
    split
    · exact .inr rfl
    · exact .inl ht
  · rw [he]
    exact hf
  · rw [hc] at hr
    cases hr

theorem Call.replacesFault_of_controls {c : Call} (h : c.controls = false) (hwf : c.Wf) :
    c.replacesFault = false := by
  cases c with
  | ioctl cmd ctl =>
    cases ctl with
    | run pc =>
      cases pc with
      | store stored =>
        -- only a `SET_FAULT` comes to its store
        obtain ⟨config, rfl, -⟩ := hwf
        cases h
      | start => cases cmd <;> first | rfl | cases h
      | _ => cases cmd <;> rfl
    | _ => cases cmd <;> rfl
  | _ => rfl

theorem Sys.quiet_spec {s : Sys} {j k : Nat} {c : Call} (h : s.quiet j = true) (hkj : k ≠ j)
    (hc : s.callAt k = some c) : c.controls = false := by
  have hlt : k < s.callers.length := by
    by_contra hge
    rw [Sys.callAt, List.getElem?_eq_none (by omega)] at hc
    cases hc
  have hk := List.all_eq_true.mp h k (List.mem_range.mpr hlt)
  simpa [hkj, hc] using hk

/-- How far the control call got, and what holds of the record then. -/
def Installed (f fault : FaultConfig) : Ctl IoctlPc IoctlResult → Prop
  | .run .wakeRead => Under f fault
  | .run .wakeWrite => Under f fault
  | .run _ => True
  | .exit res => res = ⟨0, none⟩ → Under f fault
  | .returned res => res = ⟨0, none⟩ → Under f fault

theorem IoctlMove.installed {cmd : IoctlCmd} {d : Device} {woken : Bool} {pc : IoctlPc}
    {e : Effect (Ctl IoctlPc IoctlResult)} (h : IoctlMove cmd d woken pc e)
    (hwf : cmd.Wf (.run pc)) (hi : Installed cmd.installs d.fault (.run pc)) :
    Installed cmd.installs e.dev.fault e.ctl := by
  cases h with
  | setUnreadable => intro h; cases h
  | setRefused _ hv =>
    rw [validateFault_error hv]
    intro h
    cases h
  | setAccepted => trivial
  | get => trivial
  | clear hcmd =>
    subst hcmd
    exact .inl rfl
  | reset hcmd =>
    subst hcmd
    exact .inl rfl
  | other => intro h; cases h
  | store =>
    obtain ⟨config, rfl, hv⟩ := hwf
    exact .inl (validateFault_form hv)
  | outUnwritable => intro h; cases h
  | out => intro h; cases h
  | wakeRead => exact hi
  | wakeWrite => exact fun _ => hi

theorem Installed.keep {f fault fault' : FaultConfig} {ctl : Ctl IoctlPc IoctlResult}
    (h : Installed f fault ctl) (hu : Under f fault → Under f fault') :
    Installed f fault' ctl := by
  cases ctl with
  | run pc =>
    cases pc with
    | wakeRead => exact hu h
    | wakeWrite => exact hu h
    | _ => trivial
  | exit res => exact fun hres => hu (h hres)
  | returned res => exact fun hres => hu (h hres)

/-! ## The barrier rule -/

/-- A run from a state with the module's invariant keeps it. -/
theorem inv_of_startingAt {s t : Sys} {tr : List (Move Sys Label)} (hs : s.Inv)
    (h : (machine.startingAt s).Run tr t) : t.Inv :=
  h.invariant (fun _ h0 => h0 ▸ hs) (fun _ _ _ hi hl => hi.step hl)

theorem Sys.Inv.invoked {s : Sys} (h : s.Inv) (op : Op) : (s.invoked op).Inv :=
  h.step (l := .invoke op) rfl

/-- While the control call runs: where it stands, and the record then. -/
theorem control_installed {cmd : IoctlCmd} {s₀ s : Sys} {tr : List (Move Sys Label)}
    (h₀ : s₀.Inv) (h : (machine.startingAt (s₀.invoked (.ioctl cmd))).Run tr s)
    (hq : ∀ m ∈ tr, m.pre.quiet s₀.callers.length = true) :
    ∃ ctl, s.callAt s₀.callers.length = some (.ioctl cmd ctl) ∧
      Installed cmd.installs s.dev.fault ctl := by
  induction h with
  | start hs =>
    cases hs
    exact ⟨.run .start, by rw [Sys.callAt_invoked, if_pos rfl]; rfl, trivial⟩
  | @snoc tr s l t hr hl ih =>
    obtain ⟨ctl, hat, hinst⟩ := ih (fun m hm => hq m (List.mem_append_left _ hm))
    have hquiet : s.quiet s₀.callers.length = true := hq ⟨s, l, t⟩ (by simp)
    have hinv : s.Inv := inv_of_startingAt (h₀.invoked _) hr
    rcases Sys.step_cases hl with ⟨op, rfl, rfl⟩ | ⟨k, ch, c, e, rfl, hc, hm, rfl⟩
    · refine ⟨ctl, ?_, hinst⟩
      obtain ⟨b, hb, hcall⟩ := Option.map_eq_some_iff.mp hat
      rw [Sys.callAt, Sys.getElem?_invoked op hb, Option.map_some, hcall]
    · have hwf := hinv.calls c (List.mem_of_getElem? hc)
      by_cases hk : k = s₀.callers.length
      · -- the control call itself
        subst hk
        have hcall : c.call = .ioctl cmd ctl :=
          Option.some.inj ((Sys.callAt_of hc).symm.trans hat)
        rw [hcall] at hm hwf
        rw [Sys.callAt_after hc, if_pos rfl]
        cases hm with
        | ioctl hm => exact ⟨_, rfl, hm.installed hwf hinst⟩
        | ioctlReturn => exact ⟨_, rfl, hinst⟩
      · -- any other call: it controls nothing
        have hcontrols := Sys.quiet_spec hquiet hk (Sys.callAt_of hc)
        refine ⟨ctl, by rw [Sys.callAt_after hc, if_neg hk]; exact hat, ?_⟩
        exact hinst.keep (hm.under hinv.fault (Call.replacesFault_of_controls hcontrols hwf))

section Rule

variable {cmd : IoctlCmd} {op : Op} {s₀ s₁ s : Sys} {tr₁ tr₂ : List (Move Sys Label)}

theorem Barrier.inv₀ (h : Barrier cmd op s₀ tr₁ s₁ tr₂ s) : s₀.Inv := by
  obtain ⟨tr, hr⟩ := h.reachable
  exact machine_inv hr

theorem Barrier.inv₁ (h : Barrier cmd op s₀ tr₁ s₁ tr₂ s) : s₁.Inv :=
  inv_of_startingAt (h.inv₀.invoked _) h.control

/-- When the control call has returned, its record is installed. -/
theorem Barrier.under (h : Barrier cmd op s₀ tr₁ s₁ tr₂ s) : Under cmd.installs s₁.dev.fault := by
  obtain ⟨ctl, hat, hinst⟩ := control_installed h.inv₀ h.control h.quiet₁
  cases hat.symm.trans h.returned
  exact hinst rfl

/-- **The barrier rule.** A property of the operation and of the steps it made
holds if every step keeps it that sees a record under the installed one. -/
theorem Barrier.induct (h : Barrier cmd op s₀ tr₁ s₁ tr₂ s) {Q : List OwnStep → Call → Prop}
    (hstart : Q [] op.call)
    (hstep : ∀ steps d ch woken c e, Under cmd.installs d.fault → Canonical d.fault →
      c.step d ch woken = some e → Q steps c → Q (steps ++ [⟨d, ch, woken, c, e.dev, e.ctl⟩]) e.ctl) :
    ∃ c, s.callAt s₁.callers.length = some c ∧ Q (ownSteps s₁.callers.length tr₂) c := by
  have hinv₁ := h.inv₁
  have hunder := h.under
  have hreturned := h.returned
  -- beside the property: the record stays installed and the control call stays returned
  suffices hgoal : Under cmd.installs s.dev.fault ∧
      s.callAt s₀.callers.length = some (.ioctl cmd (.returned ⟨0, none⟩)) ∧
      ∃ c, s.callAt s₁.callers.length = some c ∧ Q (ownSteps s₁.callers.length tr₂) c from
    hgoal.2.2
  have hlt : s₀.callers.length ≠ s₁.callers.length := by
    intro heq
    rw [heq, Sys.callAt, List.getElem?_eq_none (Nat.le_refl _)] at hreturned
    cases hreturned
  have hq := h.quiet₂
  have hr := h.operation
  clear h
  induction hr with
  | start hs =>
    cases hs
    refine ⟨hunder, ?_, op.call, by rw [Sys.callAt_invoked, if_pos rfl], hstart⟩
    rw [Sys.callAt_invoked, if_neg hlt]
    exact hreturned
  | @snoc tr s l t hr hl ih =>
    obtain ⟨hu, hret, c₀, hat, hQ⟩ := ih (fun m hm => hq m (List.mem_append_left _ hm))
    have hquiet : s.quiet s₀.callers.length = true := hq ⟨s, l, t⟩ (by simp)
    have hinv : s.Inv := inv_of_startingAt (hinv₁.invoked _) hr
    rcases Sys.step_effect hl with ⟨op', rfl, rfl⟩ | ⟨k, ch, c, e, rfl, hc, he, rfl⟩
    · have hold : ∀ j b, s.callAt j = some b → (s.invoked op').callAt j = some b := by
        intro j b hb
        obtain ⟨b', hb', hcall⟩ := Option.map_eq_some_iff.mp hb
        rw [Sys.callAt, Sys.getElem?_invoked op' hb', Option.map_some, hcall]
      refine ⟨hu, hold _ _ hret, c₀, hold _ _ hat, ?_⟩
      rw [ownSteps_invoke]
      exact hQ
    · have hm := Call.step_move he
      have hwf := hinv.calls c (List.mem_of_getElem? hc)
      -- the control call has returned and the others control nothing
      have hk : k ≠ s₀.callers.length := by
        intro hk
        subst hk
        have hcall : c.call = .ioctl cmd (.returned ⟨0, none⟩) :=
          Option.some.inj ((Sys.callAt_of hc).symm.trans hret)
        rw [hcall] at hm
        cases hm
      have hcontrols := Sys.quiet_spec hquiet hk (Sys.callAt_of hc)
      have hu' : Under cmd.installs e.dev.fault :=
        hm.under hinv.fault (Call.replacesFault_of_controls hcontrols hwf) hu
      refine ⟨hu', by rw [Sys.callAt_after hc, if_neg hk]; exact hret, ?_⟩
      rw [Sys.callAt_after hc]
      by_cases hi : k = s₁.callers.length
      · subst hi
        have hcall : c.call = c₀ := Option.some.inj ((Sys.callAt_of hc).symm.trans hat)
        rw [if_pos rfl, ownSteps_self hc]
        refine ⟨e.ctl, rfl, ?_⟩
        rw [← hcall] at hQ
        exact hstep _ _ _ _ _ _ hu hinv.fault he hQ
      · rw [if_neg hi, ownSteps_other hi]
        exact ⟨c₀, hat, hQ⟩

end Rule

/-- A read or write of at least one byte. -/
def Op.Positive : Op → Prop
  | .read a => a.count ≠ 0
  | .write a => a.data ≠ []
  | _ => False

/-! ## Disconnect -/

/-- The value a call has returned. -/
def Call.returnValue : Call → Option Int
  | .read _ (.returned res) => some res.ret
  | .write _ (.returned ret) => some ret
  | .poll _ (.returned res) => some res.ret
  | .ioctl _ (.returned res) => some res.ret
  | _ => none

/-- An operation on a device that is gone, after so many steps. -/
inductive Gone : Nat → Call → Prop
  | readStart {a} : a.count ≠ 0 → Gone 0 (.read a (.run .start))
  | readSample {a l} : Gone 1 (.read a (.run (.fault l)))
  | readExit {a} : Gone 2 (.read a (.exit (.error ENODEV)))
  | readReturned {a} : Gone 3 (.read a (.returned (.error ENODEV)))
  | writeStart {a} : a.data ≠ [] → Gone 0 (.write a (.run .start))
  | writeTop {a} : Gone 1 (.write a (.run .top))
  | writeExit {a} : Gone 2 (.write a (.exit (-ENODEV)))
  | writeReturned {a} : Gone 3 (.write a (.returned (-ENODEV)))

theorem applyReadFault_disconnect {fault : FaultConfig} (h : fault.type = faultDisconnect)
    (l : ReadLocals) : applyReadFault fault l = ⟨fault, l, 0, -ENODEV⟩ := by
  simp +decide [applyReadFault, h]

theorem Gone.step {n : Nat} {c : Call} (h : Gone n c) {d : Device} {ch : Choice} {woken : Bool}
    {e : Effect Call} (hd : d.fault.type = faultDisconnect) (he : c.step d ch woken = some e) :
    Gone (n + 1) e.ctl ∧ e.dev = d := by
  have hm := Call.step_move he
  cases h with
  | readStart hcount =>
    cases hm with
    | read hm =>
      cases hm with
      | zero h0 => exact absurd h0 hcount
      | enter => exact ⟨.readSample, rfl⟩
  | @readSample a l =>
    cases hm with
    | read hm =>
      have hs := applyReadFault_disconnect hd l
      have hsampled : d.sampled l = d := by rw [Device.sampled, hs]
      cases hm with
      | sampleDelay hs' hdelay =>
        cases hs.symm.trans hs'
        exact absurd rfl hdelay
      | sampleFail hs' =>
        cases hs.symm.trans hs'
        exact ⟨.readExit, hsampled⟩
      | samplePass hs' _ hret =>
        cases hs.symm.trans hs'
        exact absurd (show -ENODEV = 0 from hret) (by decide)
  | readExit => cases hm; exact ⟨.readReturned, rfl⟩
  | readReturned => cases hm
  | writeStart hdata =>
    cases hm with
    | write hm =>
      cases hm with
      | zero h0 => exact absurd h0 hdata
      | enter => exact ⟨.writeTop, rfl⟩
  | writeTop =>
    have hgone : isDisconnected d.fault = true := by rw [isDisconnected, hd]; rfl
    cases hm with
    | write hm =>
      cases hm with
      | gone => exact ⟨.writeExit, rfl⟩
      | tryNow hnot => cases hgone.symm.trans hnot
      | wait hnot => cases hgone.symm.trans hnot
  | writeExit => cases hm; exact ⟨.writeReturned, rfl⟩
  | writeReturned => cases hm

/-- Before its last step such an operation never waits. -/
theorem Gone.enabled {n : Nat} {c : Call} (h : Gone n c) (hn : n < 3) (d : Device) (ch : Choice)
    (woken : Bool) : (c.step d ch woken).isSome = true := by
  cases h with
  | readStart =>
    simp only [Call.step, Ctl.step, readStep, goto, Option.isSome_map]
    split <;> rfl
  | readSample =>
    simp only [Call.step, Ctl.step, readStep, goto, Option.isSome_map]
    split
    · rfl
    · split <;> rfl
  | readExit => rfl
  | readReturned => omega
  | writeStart =>
    simp only [Call.step, Ctl.step, writeStep, goto, Option.isSome_map]
    split <;> rfl
  | writeTop =>
    simp only [Call.step, Ctl.step, writeStep, goto, Option.isSome_map]
    split
    · rfl
    · split <;> rfl
  | writeExit => rfl
  | writeReturned => omega

theorem Gone.returnValue {n : Nat} {c : Call} (h : Gone n c) :
    n ≤ 3 ∧ c.returnValue = (if n = 3 then some (-ENODEV) else none) ∧ c.readBytes = [] := by
  cases h <;> exact ⟨by omega, rfl, rfl⟩

/-- A disconnected device answers after three steps of the operation, which
never wait, and nothing is moved. -/
structure EndsGone (i : Nat) (steps : List OwnStep) (s : Sys) : Prop where
  bound : steps.length ≤ 3
  enabled : steps.length < 3 → ∀ ch, (s.step (.step i ch)).isSome = true
  returns : (s.callAt i).bind Call.returnValue = if steps.length = 3 then some (-ENODEV) else none
  bytes : (s.callAt i).map Call.readBytes = some []
  kept : ∀ st ∈ steps, st.after = st.dev

section Kinds

variable {cmd : IoctlCmd} {op : Op} {s₀ s₁ s : Sys} {tr₁ tr₂ : List (Move Sys Label)}

theorem Barrier.disconnect (h : Barrier cmd op s₀ tr₁ s₁ tr₂ s) (hop : op.Positive)
    (hf : cmd.installs.type = faultDisconnect) :
    EndsGone s₁.callers.length (ownSteps s₁.callers.length tr₂) s := by
  obtain ⟨c, hat, hgone, hkept⟩ := h.induct
    (Q := fun steps c => Gone steps.length c ∧ ∀ st ∈ steps, st.after = st.dev) (by
      refine ⟨?_, by simp⟩
      cases op with
      | read a => exact .readStart hop
      | write a => exact .writeStart hop
      | _ => exact hop.elim) (by
      intro steps d ch woken c e hu _ he hQ
      have hd : d.fault.type = faultDisconnect := by
        rw [hu.eq (by rw [hf]; decide)]
        exact hf
      obtain ⟨hgone, hdev⟩ := hQ.1.step hd he
      refine ⟨by simpa using hgone, ?_⟩
      intro st hst
      rcases List.mem_append.mp hst with hst | hst
      · exact hQ.2 st hst
      · cases List.mem_singleton.mp hst
        exact hdev)
  obtain ⟨hbound, hvalue, hbytes⟩ := hgone.returnValue
  refine ⟨hbound, ?_, by rw [hat]; exact hvalue, by rw [hat]; exact congrArg some hbytes, hkept⟩
  intro hlt ch
  obtain ⟨b, hb, rfl⟩ := Option.map_eq_some_iff.mp hat
  obtain ⟨e, he⟩ := Option.isSome_iff_exists.mp (hgone.enabled hlt s.dev ch b.woken)
  simp [Sys.step, hb, he]

end Kinds

/-! ## Partial reads -/

/-- A user copy that failed on its first byte. -/
def OwnStep.unreached (st : OwnStep) : Prop :=
  st.call.copies st.dev st.ch = true ∧ st.ch.reach = 0

/-- A read that was capped at `b` bytes on its first sample. -/
def Capped (b : Nat) : Ctl ReadPc ReadResult → Prop
  | .run .start => True
  | .run (.fault _) => True
  | .run (.delay _ _ _) => False
  | .run (.lock l) => l.partialReadBytes.toNat = b
  | .run (.enqueue l) => l.partialReadBytes.toNat = b
  | .run (.checkFifo _ l) => l.partialReadBytes.toNat = b
  | .run (.checkFault _ l) => l.partialReadBytes.toNat = b
  | .run (.sleep l) => l.partialReadBytes.toNat = b
  | .run (.wake res) => res.ret = res.bytes.length ∧ res.bytes.length ≤ b
  | .exit res => res.ret < 0 ∨ (res.ret = res.bytes.length ∧ res.bytes.length ≤ b)
  | .returned res => res.ret < 0 ∨ (res.ret = res.bytes.length ∧ res.bytes.length ≤ b)

theorem applyReadFault_partialRead {fault : FaultConfig} (h : fault.type = faultPartialRead)
    (l : ReadLocals) : applyReadFault fault l =
      ⟨fault, { l with partialReadBytes := fault.partialReadBytes }, 0, 0⟩ := by
  simp +decide [applyReadFault, h]

/-- The cap bounds what is copied. -/
theorem readToCopy_le_cap (a : ReadArgs) (d : Device) {l : ReadLocals} {b : Nat} (hb : b ≠ 0)
    (hl : l.partialReadBytes.toNat = b) : readToCopy a d l ≤ b := by
  have hne : l.partialReadBytes ≠ 0 := by
    intro h0
    rw [h0] at hl
    exact hb hl.symm
  rw [readToCopy, if_pos hne, hl]
  exact Nat.min_le_right _ _

theorem ReadMove.capped {a : ReadArgs} {d : Device} {ch : Choice} {woken : Bool} {pc : ReadPc}
    {e : Effect (Ctl ReadPc ReadResult)} (h : ReadMove a d ch woken pc e) (ha : a.count ≠ 0)
    (ht : d.fault.type = faultPartialRead) {b : Nat} (hb : b ≠ 0)
    (hbytes : d.fault.partialReadBytes.toNat = b) (hc : Capped b (.run pc)) :
    Capped b e.ctl ∨ ((Call.read a (.run pc)).copies d ch = true ∧ ch.reach = 0) := by
  cases h with
  | zero h0 => exact absurd h0 ha
  | enter => exact .inl trivial
  | sampleDelay hs hd =>
    cases (applyReadFault_partialRead ht _).symm.trans hs
    exact absurd rfl hd
  | sampleFail hs _ hr =>
    cases (applyReadFault_partialRead ht _).symm.trans hs
    exact absurd rfl hr
  | samplePass hs =>
    cases (applyReadFault_partialRead ht _).symm.trans hs
    exact .inl hbytes
  | delayInterrupted => exact hc.elim
  | delayFail => exact hc.elim
  | delayPass => exact hc.elim
  | lockInterrupted => exact .inl (.inl (by decide))
  | again => exact .inl (.inl (by decide))
  | block => exact .inl hc
  | @dequeue l c _ _ hcopy hmoved =>
    subst hcopy
    refine .inl ⟨?_, ?_⟩
    · show copyResult _ = ((d.fifo.take _).length : Int)
      rw [copyResult_moved hmoved, readDequeue_length]
    · show (d.fifo.take _).length ≤ b
      rw [readDequeue_length]
      exact (userCopy_copied_le _ _).trans (readToCopy_le_cap a d hb hc)
  | copyFault hs he hcopy hmoved =>
    subst hcopy
    exact .inr ⟨by simp [Call.copies, hs, he],
      userCopy_reached (readToCopy_ne_zero _ ha he) hmoved⟩
  | queue => exact .inl hc
  | fifoEmpty => exact .inl hc
  | fifoReady => exact .inl trivial
  | faultReady => exact .inl trivial
  | waitInterrupted => exact .inl (.inl (by decide))
  | sleep => exact .inl hc
  | resume => exact .inl hc
  | wake => exact .inl (.inr hc)

/-! ## Delays -/

/-- The delay that a step starts to sleep. -/
def OwnStep.sleep (st : OwnStep) : Option UInt32 :=
  match st.call, st.next with
  | .read _ (.run (.fault _)), .read _ (.run (.delay ms _ _)) => some ms
  | _, _ => none

/-- The delays that the steps started to sleep. -/
def sleeps (steps : List OwnStep) : List UInt32 := steps.filterMap OwnStep.sleep

/-- A read that sleeps `ms` once, on its first sample. -/
def Delayed (ms : UInt32) (slept : List UInt32) : Ctl ReadPc ReadResult → Prop
  | .run .start => slept = []
  | .run (.fault l) => (l.delayApplied = false ∧ slept = []) ∨ (l.delayApplied = true ∧ slept = [ms])
  | .run (.delay _ _ l) => l.delayApplied = true ∧ slept = [ms]
  | .run (.lock l) => l.delayApplied = true ∧ slept = [ms]
  | .run (.enqueue l) => l.delayApplied = true ∧ slept = [ms]
  | .run (.checkFifo _ l) => l.delayApplied = true ∧ slept = [ms]
  | .run (.checkFault _ l) => l.delayApplied = true ∧ slept = [ms]
  | .run (.sleep l) => l.delayApplied = true ∧ slept = [ms]
  | .run (.wake _) => slept = [ms]
  | .exit _ => slept = [ms]
  | .returned _ => slept = [ms]

/-- The delay that a step of a read starts. -/
def sleepStarted (pc : ReadPc) (ctl : Ctl ReadPc ReadResult) : List UInt32 :=
  match pc, ctl with
  | .fault _, .run (.delay ms _ _) => [ms]
  | _, _ => []

theorem sleeps_concat (steps : List OwnStep) (a : ReadArgs) (pc : ReadPc)
    (ctl : Ctl ReadPc ReadResult) (d d' : Device) (ch : Choice) (woken : Bool) :
    sleeps (steps ++ [⟨d, ch, woken, .read a (.run pc), d', .read a ctl⟩]) =
      sleeps steps ++ sleepStarted pc ctl := by
  unfold sleeps
  rw [List.filterMap_append]
  congr 1
  unfold sleepStarted
  split <;> simp_all [OwnStep.sleep]

theorem applyReadFault_delay {fault : FaultConfig} (h : fault.type = faultDelay)
    (l : ReadLocals) : applyReadFault fault l =
      if l.delayApplied then ⟨fault, l, 0, 0⟩
      else ⟨fault, { l with delayApplied := true }, fault.delayMs, 0⟩ := by
  cases hl : l.delayApplied <;> simp +decide [applyReadFault, h, hl]

/-- Between the samples nothing is slept. -/
theorem ReadMove.delayed_between {a : ReadArgs} {d : Device} {ch : Choice} {woken : Bool}
    {pc : ReadPc} {e : Effect (Ctl ReadPc ReadResult)} (h : ReadMove a d ch woken pc e)
    (ha : a.count ≠ 0) (hpc : ∀ l, pc ≠ .fault l) {ms : UInt32} {slept : List UInt32}
    (hc : Delayed ms slept (.run pc)) : Delayed ms slept e.ctl := by
  cases h with
  | zero h0 => exact absurd h0 ha
  | enter => exact .inl ⟨rfl, hc⟩
  | sampleDelay => exact absurd rfl (hpc _)
  | sampleFail => exact absurd rfl (hpc _)
  | samplePass => exact absurd rfl (hpc _)
  | fifoReady => exact .inr hc
  | faultReady => exact .inr hc
  | wake => exact hc
  | delayInterrupted => exact hc.2
  | delayFail => exact hc.2
  | lockInterrupted => exact hc.2
  | again => exact hc.2
  | dequeue => exact hc.2
  | copyFault => exact hc.2
  | waitInterrupted => exact hc.2
  | delayPass => exact hc
  | block => exact hc
  | queue => exact hc
  | fifoEmpty => exact hc
  | sleep => exact hc
  | resume => exact hc

/-- The first sample starts the sleep, and no later one does. -/
theorem ReadMove.delayed {a : ReadArgs} {d : Device} {ch : Choice} {woken : Bool} {pc : ReadPc}
    {e : Effect (Ctl ReadPc ReadResult)} (h : ReadMove a d ch woken pc e) (ha : a.count ≠ 0)
    (ht : d.fault.type = faultDelay) (hms : d.fault.delayMs ≠ 0) {slept : List UInt32}
    (hc : Delayed d.fault.delayMs slept (.run pc)) :
    Delayed d.fault.delayMs (slept ++ sleepStarted pc e.ctl) e.ctl := by
  by_cases hpc : ∃ l, pc = .fault l
  · obtain ⟨l, rfl⟩ := hpc
    have hsample := applyReadFault_delay ht l
    rcases hc with ⟨happlied, rfl⟩ | ⟨happlied, rfl⟩
    · rw [happlied, if_neg (by decide)] at hsample
      cases h with
      | sampleDelay hs =>
        cases hsample.symm.trans hs
        exact ⟨rfl, rfl⟩
      | sampleFail hs _ hr =>
        cases hsample.symm.trans hs
        exact absurd rfl hr
      | samplePass hs hd =>
        cases hsample.symm.trans hs
        exact absurd hd hms
    · rw [happlied, if_pos rfl] at hsample
      cases h with
      | sampleDelay hs hd =>
        cases hsample.symm.trans hs
        exact absurd rfl hd
      | sampleFail hs _ hr =>
        cases hsample.symm.trans hs
        exact absurd rfl hr
      | samplePass hs =>
        cases hsample.symm.trans hs
        exact ⟨happlied, rfl⟩
  · have hpc : ∀ l, pc ≠ .fault l := fun l hl => hpc ⟨l, hl⟩
    have hnone : sleepStarted pc e.ctl = [] := by
      unfold sleepStarted
      split
      · exact absurd rfl (hpc _)
      · rfl
    rw [hnone, List.append_nil]
    exact h.delayed_between ha hpc hc

/-! ## No fault -/

/-- A read on a device without a fault: it fails neither with EIO nor as
disconnected, and it carries no cap. -/
def Unfaulted : Ctl ReadPc ReadResult → Prop
  | .run .start => True
  | .run (.fault l) => l.partialReadBytes = 0
  | .run (.delay _ _ _) => False
  | .run (.lock l) => l.partialReadBytes = 0
  | .run (.enqueue l) => l.partialReadBytes = 0
  | .run (.checkFifo _ l) => l.partialReadBytes = 0
  | .run (.checkFault _ l) => l.partialReadBytes = 0
  | .run (.sleep l) => l.partialReadBytes = 0
  | .run (.wake res) => res.ret ≠ - EIO ∧ res.ret ≠ -ENODEV
  | .exit res => res.ret ≠ - EIO ∧ res.ret ≠ -ENODEV
  | .returned res => res.ret ≠ - EIO ∧ res.ret ≠ -ENODEV

theorem applyReadFault_none {fault : FaultConfig} (h : fault.type = faultNone) (l : ReadLocals) :
    applyReadFault fault l = ⟨fault, l, 0, 0⟩ := by
  simp [applyReadFault, h]

/-- The value of a user copy is no errno. -/
theorem copyResult_nonneg (c : UserCopy) : 0 ≤ copyResult c := by
  unfold copyResult
  split_ifs
  · exact Int.natCast_nonneg _
  · exact Int.emod_nonneg _ (by decide)
  · exact Int.natCast_nonneg _

theorem ReadMove.unfaulted {a : ReadArgs} {d : Device} {ch : Choice} {woken : Bool} {pc : ReadPc}
    {e : Effect (Ctl ReadPc ReadResult)} (h : ReadMove a d ch woken pc e)
    (ht : d.fault.type = faultNone) (hc : Unfaulted (.run pc)) :
    Unfaulted e.ctl ∧ sleepStarted pc e.ctl = [] := by
  have hnonneg : ∀ {ret : Int}, 0 ≤ ret → ret ≠ - EIO ∧ ret ≠ -ENODEV := by
    intro ret hret
    refine ⟨?_, ?_⟩ <;> intro heq <;> rw [heq] at hret <;> exact absurd hret (by decide)
  cases h with
  | zero => exact ⟨hnonneg le_rfl, rfl⟩
  | enter => exact ⟨rfl, rfl⟩
  | sampleDelay hs hd =>
    cases (applyReadFault_none ht _).symm.trans hs
    exact absurd rfl hd
  | sampleFail hs _ hr =>
    cases (applyReadFault_none ht _).symm.trans hs
    exact absurd rfl hr
  | samplePass hs =>
    cases (applyReadFault_none ht _).symm.trans hs
    exact ⟨hc, rfl⟩
  | delayInterrupted => exact hc.elim
  | delayFail => exact hc.elim
  | delayPass => exact hc.elim
  | lockInterrupted => exact ⟨show -EINTR ≠ - EIO ∧ -EINTR ≠ -ENODEV by decide, rfl⟩
  | again => exact ⟨show -EAGAIN ≠ - EIO ∧ -EAGAIN ≠ -ENODEV by decide, rfl⟩
  | dequeue => exact ⟨hnonneg (copyResult_nonneg _), rfl⟩
  | copyFault => exact ⟨hnonneg (copyResult_nonneg _), rfl⟩
  | waitInterrupted => exact ⟨show -ERESTARTSYS ≠ - EIO ∧ -ERESTARTSYS ≠ -ENODEV by decide, rfl⟩
  | block => exact ⟨hc, rfl⟩
  | queue => exact ⟨hc, rfl⟩
  | fifoEmpty => exact ⟨hc, rfl⟩
  | fifoReady => exact ⟨hc, rfl⟩
  | faultReady => exact ⟨hc, rfl⟩
  | sleep => exact ⟨hc, rfl⟩
  | resume => exact ⟨hc, rfl⟩
  | wake => exact ⟨hc, rfl⟩

/-- The dequeue of an uncapped read asks for all that is there, up to its
count. -/
def OwnStep.Uncapped (st : OwnStep) : Prop :=
  ∀ a l, st.call = .read a (.run (.lock l)) → readToCopy a st.dev l = min a.count st.dev.fifo.length

/-! ## Writes -/

/-- The device with its fault taken away. -/
def Device.unfaulted (d : Device) : Device := { d with fault := clearFaultLocked }

/-- The write on the same FIFO contents, with the same signals, user buffer
and wake-ups at each of its steps, but without a fault: the FIFO it leaves
behind each step, and where it stands. -/
def WriteArgs.unfaulted (a : WriteArgs) (ctl : Ctl WritePc Int) :
    List OwnStep → Option (List (List UInt8) × Ctl WritePc Int)
  | [] => some ([], ctl)
  | st :: steps => do
      let e ← ctl.step (writeStep a st.dev.unfaulted st.ch st.woken) st.dev.unfaulted st.woken
      let (fifos, last) ← a.unfaulted e.ctl steps
      return (e.dev.fifo :: fifos, last)

theorem WriteArgs.unfaulted_concat {a : WriteArgs} {ctl last : Ctl WritePc Int}
    {steps : List OwnStep} {fifos : List (List UInt8)} {st : OwnStep}
    {e : Effect (Ctl WritePc Int)} (h : a.unfaulted ctl steps = some (fifos, last))
    (he : last.step (writeStep a st.dev.unfaulted st.ch st.woken) st.dev.unfaulted st.woken =
      some e) :
    a.unfaulted ctl (steps ++ [st]) = some (fifos ++ [e.dev.fifo], e.ctl) := by
  induction steps generalizing ctl fifos with
  | nil =>
    simp only [WriteArgs.unfaulted, Option.some.injEq, Prod.mk.injEq] at h
    obtain ⟨rfl, rfl⟩ := h
    simp [WriteArgs.unfaulted, he]
  | cons st' steps ih =>
    simp only [WriteArgs.unfaulted, Option.bind_eq_bind, Option.bind_eq_some_iff,
      Option.pure_def, Option.some.injEq, Prod.mk.injEq] at h
    obtain ⟨e', he', p, hrest, rfl, rfl⟩ := h
    have hlast := @ih e'.ctl p.1 hrest
    simp [WriteArgs.unfaulted, he', hlast]

/-- While the device is connected a write does not look at the fault. -/
theorem writeStep_unfaulted (a : WriteArgs) {d : Device} (hd : isDisconnected d.fault = false)
    (ch : Choice) (woken : Bool) (pc : WritePc) :
    writeStep a d.unfaulted ch woken pc =
      (writeStep a d ch woken pc).map fun e => { e with dev := e.dev.unfaulted } := by
  have hnone : isDisconnected d.unfaulted.fault = false := rfl
  have hfull : kfifoIsFull d.unfaulted = kfifoIsFull d := rfl
  have hcopy : writeToCopy a d.unfaulted = writeToCopy a d := rfl
  cases pc with
  | enqueue => rfl
  | wake ret => rfl
  | _ =>
    simp only [writeStep, goto, hd, hnone, hfull, hcopy]
    split_ifs <;> rfl

theorem writeStep_fault {a : WriteArgs} {d : Device} {ch : Choice} {woken : Bool} {pc : WritePc}
    {e : Effect (Ctl WritePc Int)} (h : writeStep a d ch woken pc = some e) :
    e.dev.fault = d.fault := by
  cases writeStep_move h <;> rfl

/-- The same for the whole control state. -/
theorem Ctl.write_unfaulted {a : WriteArgs} {d : Device} (hd : isDisconnected d.fault = false)
    {ch : Choice} {woken : Bool} {ctl : Ctl WritePc Int} {e : Effect (Ctl WritePc Int)}
    (h : ctl.step (writeStep a d ch woken) d woken = some e) :
    ctl.step (writeStep a d.unfaulted ch woken) d.unfaulted woken =
      some { e with dev := e.dev.unfaulted } ∧ e.dev.fault = d.fault := by
  cases ctl with
  | run pc =>
    refine ⟨?_, writeStep_fault h⟩
    have h : writeStep a d ch woken pc = some e := h
    show writeStep a d.unfaulted ch woken pc = _
    rw [writeStep_unfaulted a hd, h]
    rfl
  | exit res =>
    cases goto_eq_some.mp h
    exact ⟨rfl, rfl⟩
  | returned res => cases h

/-! ## What the operation sees -/

/-- What a read or write behind the barrier does while `f` is installed. -/
structure Observes (f : FaultConfig) (op : Op) (i : Nat) (steps : List OwnStep) (s : Sys) : Prop where
  disconnect : f.type = faultDisconnect → EndsGone i steps s
  partialRead : f.type = faultPartialRead → ∀ a, op = .read a → ∀ res,
    s.callAt i = some (.read a (.returned res)) → 0 ≤ res.ret →
      res.ret ≤ f.partialReadBytes.toNat ∧ res.bytes.length ≤ f.partialReadBytes.toNat
  /-- One sleep of the given length; it has been started when the read
  returns. -/
  delay : f.type = faultDelay → ∀ a, op = .read a →
    (sleeps steps = [] ∨ sleeps steps = [f.delayMs]) ∧
    ∀ res, s.callAt i = some (.read a (.returned res)) → sleeps steps = [f.delayMs]
  none : f.type = faultNone → ∀ a, op = .read a →
    sleeps steps = [] ∧ (∀ st ∈ steps, st.Uncapped) ∧
    ∀ res, s.callAt i = some (.read a (.returned res)) → res.ret ≠ - EIO ∧ res.ret ≠ -ENODEV
  /-- A write goes through the same states and leaves the same FIFO after each
  step as it would without a fault, and the fault alone. -/
  write : f.type ≠ faultDisconnect → ∀ a, op = .write a →
    (∃ ctl, s.callAt i = some (.write a ctl) ∧
      a.unfaulted (.run .start) steps = some (steps.map (·.after.fifo), ctl)) ∧
    ∀ st ∈ steps, st.after.fault = st.dev.fault

section Kinds

variable {cmd : IoctlCmd} {s₀ s₁ s : Sys} {tr₁ tr₂ : List (Move Sys Label)} {a : ReadArgs}

/-- The barrier rule for reads, on the control state. -/
theorem Barrier.induct_read (h : Barrier cmd (.read a) s₀ tr₁ s₁ tr₂ s)
    {Q : List OwnStep → Ctl ReadPc ReadResult → Prop} (hstart : Q [] (.run .start))
    (hmove : ∀ steps d ch woken pc e, Under cmd.installs d.fault → Canonical d.fault →
      ReadMove a d ch woken pc e → Q steps (.run pc) →
      Q (steps ++ [⟨d, ch, woken, .read a (.run pc), e.dev, .read a e.ctl⟩]) e.ctl)
    (hreturn : ∀ steps st res, sleeps [st] = [] → st.call = .read a (.exit res) →
      Q steps (.exit res) → Q (steps ++ [st]) (.returned res)) :
    ∃ ctl, s.callAt s₁.callers.length = some (.read a ctl) ∧
      Q (ownSteps s₁.callers.length tr₂) ctl := by
  obtain ⟨c, hat, ctl, rfl, hQ⟩ := h.induct (Q := fun steps c => ∃ ctl, c = .read a ctl ∧ Q steps ctl)
    ⟨_, rfl, hstart⟩ (by
      intro steps d ch woken c e hu hcanonical he hQ
      obtain ⟨ctl, rfl, hQ⟩ := hQ
      cases Call.step_move he with
      | read hm => exact ⟨_, rfl, hmove steps d ch woken _ _ hu hcanonical hm hQ⟩
      | readReturn => exact ⟨_, rfl, hreturn steps _ _ rfl rfl hQ⟩)
  exact ⟨ctl, hat, hQ⟩

theorem Barrier.partialRead (h : Barrier cmd (.read a) s₀ tr₁ s₁ tr₂ s) (ha : a.count ≠ 0)
    (hf : cmd.installs.type = faultPartialRead)
    (hreach : ∀ st ∈ ownSteps s₁.callers.length tr₂, ¬ st.unreached) {res : ReadResult}
    (hres : s.callAt s₁.callers.length = some (.read a (.returned res))) (hpos : 0 ≤ res.ret) :
    res.ret ≤ cmd.installs.partialReadBytes.toNat ∧
      res.bytes.length ≤ cmd.installs.partialReadBytes.toNat := by
  obtain ⟨ctl, hat, hQ⟩ := h.induct_read
    (Q := fun steps ctl => (∃ st ∈ steps, st.unreached) ∨
      Capped cmd.installs.partialReadBytes.toNat ctl)
    (.inr trivial) (by
      intro steps d ch woken pc e hu hcanonical hm hQ
      have hd : d.fault = cmd.installs := hu.eq (by rw [hf]; decide)
      have ht : d.fault.type = faultPartialRead := by rw [hd]; exact hf
      have hb : cmd.installs.partialReadBytes.toNat ≠ 0 := by
        have := (hcanonical.wellFormed.partialRead ht).1.1
        rw [hd] at this
        omega
      rcases hQ with ⟨st, hst, hun⟩ | hcapped
      · exact .inl ⟨st, List.mem_append_left _ hst, hun⟩
      · rcases hm.capped ha ht hb (by rw [hd]) hcapped with hcapped | hun
        · exact .inr hcapped
        · exact .inl ⟨_, List.mem_append_right _ (List.mem_singleton_self _), hun⟩) (by
      intro steps st res _ _ hQ
      rcases hQ with ⟨st', hst, hun⟩ | hcapped
      · exact .inl ⟨st', List.mem_append_left _ hst, hun⟩
      · exact .inr hcapped)
  cases hat.symm.trans hres
  rcases hQ with ⟨st, hst, hun⟩ | hneg | ⟨hret, hle⟩
  · exact absurd hun (hreach st hst)
  · omega
  · exact ⟨by omega, hle⟩

theorem sleeps_append (steps : List OwnStep) (st : OwnStep) :
    sleeps (steps ++ [st]) = sleeps steps ++ sleeps [st] := by
  simp [sleeps, List.filterMap_append]

theorem Barrier.delay (h : Barrier cmd (.read a) s₀ tr₁ s₁ tr₂ s) (ha : a.count ≠ 0)
    (hf : cmd.installs.type = faultDelay) :
    ∃ ctl, s.callAt s₁.callers.length = some (.read a ctl) ∧
      Delayed cmd.installs.delayMs (sleeps (ownSteps s₁.callers.length tr₂)) ctl := by
  refine h.induct_read (Q := fun steps ctl => Delayed cmd.installs.delayMs (sleeps steps) ctl)
    rfl ?_ ?_
  · intro steps d ch woken pc e hu hcanonical hm hQ
    have hd : d.fault = cmd.installs := hu.eq (by rw [hf]; decide)
    have ht : d.fault.type = faultDelay := by rw [hd]; exact hf
    have hms : d.fault.delayMs ≠ 0 := by
      intro h0
      have := (hcanonical.wellFormed.delay ht).1.1
      rw [h0] at this
      exact absurd this (by decide)
    rw [sleeps_concat, ← hd]
    rw [← hd] at hQ
    exact hm.delayed ha ht hms hQ
  · intro steps st res hsleep _ hQ
    show sleeps (steps ++ [st]) = _
    rw [sleeps_append, hsleep, List.append_nil]
    exact hQ

theorem Delayed.sleeps {ms : UInt32} {slept : List UInt32} {ctl : Ctl ReadPc ReadResult}
    (h : Delayed ms slept ctl) : slept = [] ∨ slept = [ms] := by
  cases ctl with
  | run pc =>
    cases pc with
    | start => exact .inl h
    | fault l =>
      rcases h with ⟨-, h⟩ | ⟨-, h⟩
      · exact .inl h
      · exact .inr h
    | wake res => exact .inr h
    | _ => exact .inr h.2
  | exit res => exact .inr h
  | returned res => exact .inr h

theorem Barrier.none (h : Barrier cmd (.read a) s₀ tr₁ s₁ tr₂ s)
    (hf : cmd.installs.type = faultNone) :
    ∃ ctl, s.callAt s₁.callers.length = some (.read a ctl) ∧ Unfaulted ctl ∧
      sleeps (ownSteps s₁.callers.length tr₂) = [] ∧
      ∀ st ∈ ownSteps s₁.callers.length tr₂, st.Uncapped := by
  refine h.induct_read
    (Q := fun steps ctl => Unfaulted ctl ∧ sleeps steps = [] ∧ ∀ st ∈ steps, st.Uncapped)
    ⟨trivial, rfl, by simp⟩ ?_ ?_
  · intro steps d ch woken pc e hu _ hm hQ
    obtain ⟨hctl, hsleeps, huncapped⟩ := hQ
    have ht : d.fault.type = faultNone := by
      rw [hu.eq (by rw [hf]; decide)]
      exact hf
    obtain ⟨hctl', hnone⟩ := hm.unfaulted ht hctl
    refine ⟨hctl', by rw [sleeps_concat, hsleeps, hnone]; rfl, ?_⟩
    intro st hst
    rcases List.mem_append.mp hst with hst | hst
    · exact huncapped st hst
    · cases List.mem_singleton.mp hst
      intro a' l heq
      cases heq
      have hl : l.partialReadBytes = 0 := hctl
      rw [readToCopy, if_neg (by rw [hl]; simp)]
  · intro steps st res hsleep hcall hQ
    obtain ⟨hctl, hsleeps, huncapped⟩ := hQ
    refine ⟨hctl, by rw [sleeps_append, hsleeps, hsleep]; rfl, ?_⟩
    intro st' hst
    rcases List.mem_append.mp hst with hst | hst
    · exact huncapped st' hst
    · cases List.mem_singleton.mp hst
      intro a' l heq
      cases hcall.symm.trans heq

theorem Barrier.write {a : WriteArgs} (h : Barrier cmd (.write a) s₀ tr₁ s₁ tr₂ s)
    (hf : cmd.installs.type ≠ faultDisconnect) :
    ∃ c, s.callAt s₁.callers.length = some c ∧ ∃ ctl, c = .write a ctl ∧
      a.unfaulted (.run .start) (ownSteps s₁.callers.length tr₂) =
        some ((ownSteps s₁.callers.length tr₂).map (·.after.fifo), ctl) ∧
      ∀ st ∈ ownSteps s₁.callers.length tr₂, st.after.fault = st.dev.fault := by
  refine h.induct (Q := fun steps c => ∃ ctl, c = .write a ctl ∧
    a.unfaulted (.run .start) steps = some (steps.map (·.after.fifo), ctl) ∧
    ∀ st ∈ steps, st.after.fault = st.dev.fault) ⟨_, rfl, rfl, by simp⟩ ?_
  intro steps d ch woken c e hu _ he hQ
  obtain ⟨ctl, rfl, hreplay, hkept⟩ := hQ
  obtain ⟨e', he', rfl⟩ := Option.map_eq_some_iff.mp he
  obtain ⟨hsame, hfault⟩ := Ctl.write_unfaulted (hu.connected hf) he'
  refine ⟨e'.ctl, rfl, ?_, ?_⟩
  · rw [WriteArgs.unfaulted_concat hreplay hsame, List.map_append]
    rfl
  · intro st hst
    rcases List.mem_append.mp hst with hst | hst
    · exact hkept st hst
    · cases List.mem_singleton.mp hst
      exact hfault

end Kinds

/-- **Control calls are barriers**, over every interleaving, while the user
copies of the operation reach their first byte. -/
theorem control_call_is_barrier {cmd : IoctlCmd} {op : Op} {s₀ s₁ s : Sys}
    {tr₁ tr₂ : List (Move Sys Label)} (h : Barrier cmd op s₀ tr₁ s₁ tr₂ s) (hop : op.Positive)
    (hreach : ∀ st ∈ ownSteps s₁.callers.length tr₂, ¬ st.unreached) :
    Observes cmd.installs op s₁.callers.length (ownSteps s₁.callers.length tr₂) s := by
  refine ⟨h.disconnect hop, ?_, ?_, ?_, ?_⟩
  · intro hf a heq res hres hpos
    subst heq
    exact h.partialRead hop hf hreach hres hpos
  · intro hf a heq
    subst heq
    obtain ⟨ctl, hat, hdelayed⟩ := h.delay hop hf
    refine ⟨hdelayed.sleeps, ?_⟩
    intro res hres
    cases hat.symm.trans hres
    exact hdelayed
  · intro hf a heq
    subst heq
    obtain ⟨ctl, hat, hctl, hsleeps, huncapped⟩ := h.none hf
    refine ⟨hsleeps, huncapped, ?_⟩
    intro res hres
    cases hat.symm.trans hres
    exact hctl
  · intro hf a heq
    subst heq
    obtain ⟨c, hat, ctl, rfl, hreplay, hkept⟩ := h.write hf
    exact ⟨⟨ctl, hat, hreplay⟩, hkept⟩

/-! ## Concrete intervals -/

/-- The parts of an interval that was executed. -/
structure Interval where
  s₀ : Sys
  tr₁ : List (Move Sys Label)
  s₁ : Sys
  tr₂ : List (Move Sys Label)
  s : Sys

/-- Execute what comes before, the control call and the operation. -/
def interval (cmd : IoctlCmd) (op : Op) (before during behind : List Label) : Option Interval := do
  let p₀ ← machine.replay Sys.fresh before
  let start₁ := p₀.2.invoked (.ioctl cmd)
  let p₁ ← (machine.startingAt start₁).replay start₁ during
  let start₂ := p₁.2.invoked op
  let p₂ ← (machine.startingAt start₂).replay start₂ behind
  if p₁.2.callAt p₀.2.callers.length = some (.ioctl cmd (.returned ⟨0, none⟩)) ∧
      (p₁.1 ++ p₂.1).all (·.pre.quiet p₀.2.callers.length) = true then
    return ⟨p₀.2, p₁.1, p₁.2, p₂.1, p₂.2⟩
  else none

/-- What an executed interval computes holds of a barrier. -/
theorem exists_barrier {β : Type} {cmd : IoctlCmd} {op : Op} {before during behind : List Label}
    {f : Interval → β} {b : β} (h : (interval cmd op before during behind).map f = some b) :
    ∃ v : Interval, Barrier cmd op v.s₀ v.tr₁ v.s₁ v.tr₂ v.s ∧ f v = b := by
  obtain ⟨v, hv, hb⟩ := Option.map_eq_some_iff.mp h
  simp only [interval, Option.bind_eq_bind, Option.bind_eq_some_iff] at hv
  obtain ⟨p₀, h₀, p₁, h₁, p₂, h₂, hv⟩ := hv
  split at hv
  · next hok =>
    cases hv
    obtain ⟨hret, hquiet⟩ := hok
    rw [List.all_append, Bool.and_eq_true, List.all_eq_true, List.all_eq_true] at hquiet
    refine ⟨_, ⟨⟨p₀.1, ?_⟩, ?_, hret, ?_, hquiet.1, hquiet.2⟩, hb⟩
    · exact Lts.run_of_replay rfl h₀
    · exact Lts.run_of_replay rfl h₁
    · exact Lts.run_of_replay rfl h₂
  · cases hv

/-- One byte is written before the interval. -/
def byteWaiting : List Label :=
  .invoke (.write ⟨[0x34], true⟩) :: List.replicate 6 (.step 0 { reach := 1 })

/-- A delayed read that finds a byte. -/
theorem control_call_is_barrier_delay : ∃ v : Interval,
    Barrier (.setFault ⟨faultDelay, 0, 50, 0⟩) (.read ⟨8, true⟩) v.s₀ v.tr₁ v.s₁ v.tr₂ v.s ∧
    Observes ⟨faultDelay, 0, 50, 0⟩ (.read ⟨8, true⟩) v.s₁.callers.length
      (ownSteps v.s₁.callers.length v.tr₂) v.s ∧
    sleeps (ownSteps v.s₁.callers.length v.tr₂) = [50] ∧
    v.s.callAt v.s₁.callers.length = some (.read ⟨8, true⟩ (.returned ⟨1, [0x34]⟩)) := by
  have hrun : (interval (.setFault ⟨faultDelay, 0, 50, 0⟩) (.read ⟨8, true⟩) byteWaiting
      (List.replicate 5 (.step 1 { reach := 16 })) (List.replicate 6 (.step 2 { reach := 8 }))).map
        (fun v => (sleeps (ownSteps v.s₁.callers.length v.tr₂),
          (ownSteps v.s₁.callers.length v.tr₂).all (·.ch.reach ≠ 0),
          v.s.callAt v.s₁.callers.length))
        = some ([50], true, some (.read ⟨8, true⟩ (.returned ⟨1, [0x34]⟩))) := by
    decide +kernel
  obtain ⟨v, hb, heq⟩ := exists_barrier hrun
  simp only [Prod.mk.injEq, List.all_eq_true, decide_eq_true_eq] at heq
  obtain ⟨hsleeps, hreach, hat⟩ := heq
  have hop : (Op.read ⟨8, true⟩).Positive := show 8 ≠ 0 by decide
  exact ⟨v, hb, control_call_is_barrier hb hop (fun st hst hun => hreach st hst hun.2), hsleeps, hat⟩

/-- A capped read into a buffer that cannot be written: it reports far more
than its cap. -/
theorem capped_read_bad_buffer : ∃ v : Interval,
    Barrier (.setFault ⟨faultPartialRead, 0, 0, 1⟩) (.read ⟨8, true⟩) v.s₀ v.tr₁ v.s₁ v.tr₂ v.s ∧
    (Op.read ⟨8, true⟩).Positive ∧
    v.s.callAt v.s₁.callers.length = some (.read ⟨8, true⟩ (.returned ⟨4294967282, []⟩)) ∧
    ¬ Observes ⟨faultPartialRead, 0, 0, 1⟩ (.read ⟨8, true⟩) v.s₁.callers.length
      (ownSteps v.s₁.callers.length v.tr₂) v.s := by
  have hrun : (interval (.setFault ⟨faultPartialRead, 0, 0, 1⟩) (.read ⟨8, true⟩) byteWaiting
      (List.replicate 5 (.step 1 { reach := 16 })) (List.replicate 4 (.step 2 { reach := 0 }))).map
        (fun v => v.s.callAt v.s₁.callers.length)
        = some (some (.read ⟨8, true⟩ (.returned ⟨4294967282, []⟩))) := by
    decide +kernel
  obtain ⟨v, hb, hat⟩ := exists_barrier hrun
  refine ⟨v, hb, show 8 ≠ 0 by decide, hat, ?_⟩
  intro hobserves
  have hle := (hobserves.partialRead rfl _ rfl _ hat (by decide)).1
  exact absurd hle (by decide)

end VDevLab.Kernel
