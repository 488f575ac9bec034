import VDevLab.Kernel.Calls

/-!
# The fault record is always well formed

Module init, three control calls and the read path write the one fault
record. In every reachable state it is a record that `SET_FAULT` itself could
have stored, so the read path never meets a stray field, an EIO without
occurrences or an unknown kind.
-/

namespace VDevLab.Kernel

open Check

/-! ## Well-formed records -/

/-- The canonical records, field by field. -/
structure FaultConfig.WellFormed (fault : FaultConfig) : Prop where
  type_le : fault.type.toNat ≤ 4
  plain : fault.type = faultNone ∨ fault.type = faultDisconnect →
    fault.repeats = 0 ∧ fault.delayMs = 0 ∧ fault.partialReadBytes = 0
  eio : fault.type = faultEio →
    (1 ≤ fault.repeats.toNat ∧ fault.repeats.toNat ≤ 1000000) ∧
      fault.delayMs = 0 ∧ fault.partialReadBytes = 0
  delay : fault.type = faultDelay →
    (1 ≤ fault.delayMs.toNat ∧ fault.delayMs.toNat ≤ 10000) ∧
      fault.repeats = 0 ∧ fault.partialReadBytes = 0
  partialRead : fault.type = faultPartialRead →
    (1 ≤ fault.partialReadBytes.toNat ∧ fault.partialReadBytes.toNat ≤ 4096) ∧
      fault.repeats = 0 ∧ fault.delayMs = 0

/-- The record a request asks for: its kind with the parameter of that kind. -/
def canonicalForm (config : FaultConfig) : FaultConfig where
  type := config.type
  repeats := if config.type = faultEio then config.repeats else 0
  delayMs := if config.type = faultDelay then config.delayMs else 0
  partialReadBytes := if config.type = faultPartialRead then config.partialReadBytes else 0

theorem one_le_toNat {n : UInt32} (h : n ≠ 0) : 1 ≤ n.toNat :=
  Nat.one_le_iff_ne_zero.mpr (toNat_ne_zero h)

theorem Canonical.wellFormed {fault : FaultConfig} (h : Canonical fault) : fault.WellFormed := by
  cases h with
  | none => exact ⟨by decide, by simp [clearFaultLocked], by decide, by decide, by decide⟩
  | disconnect => exact ⟨by decide, by simp, by decide, by decide, by decide⟩
  | eio hpos hmax =>
    refine ⟨by simp +decide, by simp +decide, fun _ => ?_, by simp +decide, by simp +decide⟩
    exact ⟨⟨one_le_toNat hpos, UInt32.le_iff_toNat_le.mp hmax⟩, rfl, rfl⟩
  | delay hpos hmax =>
    refine ⟨by simp +decide, by simp +decide, by simp +decide, fun _ => ?_, by simp +decide⟩
    exact ⟨⟨one_le_toNat hpos, UInt32.le_iff_toNat_le.mp hmax⟩, rfl, rfl⟩
  | partialRead hpos hmax =>
    refine ⟨by simp +decide, by simp +decide, by simp +decide, by simp +decide, fun _ => ?_⟩
    exact ⟨⟨one_le_toNat hpos, UInt32.le_iff_toNat_le.mp hmax⟩, rfl, rfl⟩

/-- What passes the checks is stored in canonical form. -/
theorem validateFault_form {config stored : FaultConfig} (h : validateFault config = .ok stored) :
    stored = canonicalForm config := by
  obtain ⟨type, repeats, delayMs, bytes⟩ := config
  simp only [validateFault] at h
  rw [ite_error_eq_ok] at h
  obtain ⟨-, h⟩ := h
  split at h
  · next ht => cases h; subst ht; rfl
  split at h
  · next ht =>
    rw [ite_error_eq_ok] at h
    cases h.2; subst ht; rfl
  split at h
  · next ht =>
    rw [ite_error_eq_ok] at h
    cases h.2; subst ht; rfl
  split at h
  · next ht => cases h; subst ht; rfl
  split at h
  · next ht =>
    rw [ite_error_eq_ok] at h
    cases h.2; subst ht; rfl
  · cases h

/-! ## The branches of the sample -/

/-- The ways through the `switch` of `vdevlab_apply_read_fault`. -/
inductive SampleBranch
  | none
  /-- EIO with `!vdevlab_fault.repeat`. -/
  | eioSpent
  | eioTaken
  | delayStarted
  | delayDone
  | partialRead
  | disconnect
  /-- `default`. -/
  | unknown
  deriving DecidableEq

/-- `applyReadFault` together with the branch it takes. -/
def applyReadFaultBranch (fault : FaultConfig) (l : ReadLocals) : FaultSample × SampleBranch :=
  if fault.type = faultNone then (⟨fault, l, 0, 0⟩, .none)
  else if fault.type = faultEio then
    if fault.repeats = 0 then (⟨clearFaultLocked, l, 0, 0⟩, .eioSpent)
    else (⟨takeOccurrence fault, l, 0, - EIO⟩, .eioTaken)
  else if fault.type = faultDelay then
    if !l.delayApplied then
      (⟨fault, { l with delayApplied := true }, fault.delayMs, 0⟩, .delayStarted)
    else (⟨fault, l, 0, 0⟩, .delayDone)
  else if fault.type = faultPartialRead then
    (⟨fault, { l with partialReadBytes := fault.partialReadBytes }, 0, 0⟩, .partialRead)
  else if fault.type = faultDisconnect then (⟨fault, l, 0, -ENODEV⟩, .disconnect)
  else (⟨fault, l, 0, -EINVAL⟩, .unknown)

/-- The branch is recorded beside the sample and changes nothing. -/
theorem applyReadFaultBranch_sample (fault : FaultConfig) (l : ReadLocals) :
    (applyReadFaultBranch fault l).1 = applyReadFault fault l := by
  unfold applyReadFaultBranch applyReadFault
  split_ifs <;> rfl

/-- On a canonical record two of the branches are not taken. -/
theorem Canonical.branch {fault : FaultConfig} (h : Canonical fault) (l : ReadLocals) :
    (applyReadFaultBranch fault l).2 ≠ .eioSpent ∧ (applyReadFaultBranch fault l).2 ≠ .unknown := by
  cases h with
  | none => simp +decide [applyReadFaultBranch, clearFaultLocked]
  | disconnect => simp +decide [applyReadFaultBranch]
  | eio hpos hmax => simp +decide [applyReadFaultBranch, hpos]
  | delay => cases hl : l.delayApplied <;> simp +decide [applyReadFaultBranch, hl]
  | partialRead => simp +decide [applyReadFaultBranch]

/-! ## The steps of one call -/

/-- The device before and after each step of caller `i`. -/
def stepsOf (i : Nat) (tr : List (Move Sys Label)) : List (Device × Device) :=
  tr.filterMap fun m =>
    match m.label with
    | .step j _ => if j = i then some (m.pre.dev, m.post.dev) else none
    | .invoke _ => none

/-- No step changed the device. -/
def Kept (steps : List (Device × Device)) : Prop := ∀ p ∈ steps, p.2 = p.1

/-- One step stored the canonical form of the request; no other changed the
device. -/
def StoredOnce (config : FaultConfig) (steps : List (Device × Device)) : Prop :=
  ∃ before d after, steps = before ++ (d, { d with fault := canonicalForm config }) :: after ∧
    Kept before ∧ Kept after

/-- The steps behind a `SET_FAULT`, by how far it got. -/
def SetFaultHistory (config : FaultConfig) (steps : List (Device × Device)) :
    Ctl IoctlPc IoctlResult → Prop
  | .run .wakeRead => StoredOnce config steps
  | .run .wakeWrite => StoredOnce config steps
  | .run _ => Kept steps
  | .exit res => (res.ret < 0 ∧ Kept steps) ∨ (res.ret = 0 ∧ StoredOnce config steps)
  | .returned res => (res.ret < 0 ∧ Kept steps) ∨ (res.ret = 0 ∧ StoredOnce config steps)

theorem Kept.concat {steps : List (Device × Device)} (h : Kept steps) (d : Device) :
    Kept (steps ++ [(d, d)]) := by
  intro p hp
  rcases List.mem_append.mp hp with hp | hp
  · exact h p hp
  · cases List.mem_singleton.mp hp
    rfl

theorem StoredOnce.concat {config : FaultConfig} {steps : List (Device × Device)}
    (h : StoredOnce config steps) (d : Device) : StoredOnce config (steps ++ [(d, d)]) := by
  obtain ⟨before, d₀, after, heq, hbefore, hafter⟩ := h
  exact ⟨before, d₀, after ++ [(d, d)], by simp [heq], hbefore, hafter.concat d⟩

/-- A step of a `SET_FAULT` continues its history. -/
theorem SetFaultHistory.move {config : FaultConfig} {steps : List (Device × Device)} {pc : IoctlPc}
    {d : Device} {woken : Bool} {e : Effect (Ctl IoctlPc IoctlResult)}
    (h : SetFaultHistory config steps (.run pc)) (hm : IoctlMove (.setFault config) d woken pc e)
    (hwf : (IoctlCmd.setFault config).Wf (.run pc)) :
    SetFaultHistory config (steps ++ [(d, e.dev)]) e.ctl := by
  cases hm with
  | setUnreadable => exact .inl ⟨by decide, Kept.concat h d⟩
  | setRefused hcmd hv =>
    rw [validateFault_error hv]
    exact .inl ⟨by decide, Kept.concat h d⟩
  | setAccepted => exact Kept.concat h d
  | get hcmd => cases hcmd
  | clear hcmd => cases hcmd
  | reset hcmd => cases hcmd
  | other hcmd => cases hcmd
  | store =>
    -- the checks passed, so what is stored is the canonical form
    obtain ⟨config', hcmd, hv⟩ := hwf
    cases hcmd
    rw [validateFault_form hv]
    exact ⟨steps, d, [], rfl, h, by intro p hp; cases hp⟩
  | outUnwritable => exact .inl ⟨by decide, Kept.concat h d⟩
  | out => cases hwf.1
  | wakeRead => exact StoredOnce.concat h d
  | wakeWrite => exact .inr ⟨rfl, StoredOnce.concat h d⟩

theorem stepsOf_invoke (i : Nat) (tr : List (Move Sys Label)) (s t : Sys) (op : Op) :
    stepsOf i (tr ++ [⟨s, .invoke op, t⟩]) = stepsOf i tr := by
  simp [stepsOf]

theorem stepsOf_step (i j : Nat) (ch : Choice) (tr : List (Move Sys Label)) (s t : Sys) :
    stepsOf i (tr ++ [⟨s, .step j ch, t⟩]) =
      stepsOf i tr ++ if j = i then [(s.dev, t.dev)] else [] := by
  unfold stepsOf
  rw [List.filterMap_append]
  by_cases hij : j = i
  · simp [hij]
  · simp [hij]

/-- The histories of all `SET_FAULT` calls; a call that was not made yet has
no steps. -/
structure Recorded (tr : List (Move Sys Label)) (s : Sys) : Prop where
  fresh : ∀ i, s.callers.length ≤ i → stepsOf i tr = []
  setFault : ∀ i config ctl, s.callAt i = some (.ioctl (.setFault config) ctl) →
    SetFaultHistory config (stepsOf i tr) ctl

theorem Recorded.invoke {tr : List (Move Sys Label)} {s : Sys} (h : Recorded tr s) (op : Op) :
    Recorded (tr ++ [⟨s, .invoke op, s.invoked op⟩]) (s.invoked op) := by
  constructor
  · intro i hi
    rw [stepsOf_invoke]
    apply h.fresh
    have : (s.invoked op).callers.length = s.callers.length + 1 := by simp [Sys.invoked]
    omega
  · intro i config ctl hi
    rw [stepsOf_invoke]
    rw [Sys.callAt_invoked] at hi
    split at hi
    · next hlen =>
      cases op with
      | ioctl cmd =>
        cases hi
        rw [h.fresh i hlen.ge]
        intro p hp
        cases hp
      | _ => cases hi
    · exact h.setFault i config ctl hi

theorem Recorded.step {tr : List (Move Sys Label)} {s : Sys} (h : Recorded tr s) (hinv : s.Inv)
    {j : Nat} {ch : Choice} {c : Caller} {e : Effect Call} (hc : s.callers[j]? = some c)
    (hm : CallMove s.dev ch c.woken c.call e) :
    Recorded (tr ++ [⟨s, .step j ch, s.after j e⟩]) (s.after j e) := by
  have hj : j < s.callers.length := (List.getElem?_eq_some_iff.mp hc).1
  have hlength : (s.after j e).callers.length = s.callers.length := by simp [Sys.after]
  constructor
  · intro i hi
    rw [stepsOf_step, if_neg (by omega), List.append_nil]
    exact h.fresh i (by omega)
  · intro i config ctl hi
    rw [stepsOf_step]
    rw [Sys.callAt_after hc] at hi
    by_cases hij : j = i
    · subst hij
      rw [if_pos rfl] at hi ⊢
      have hwf := hinv.calls c (List.mem_of_getElem? hc)
      have hat : s.callAt j = some c.call := Sys.callAt_of hc
      cases hi' : c.call with
      | ioctl cmd ctl' =>
        rw [hi'] at hm hwf hat
        cases hm with
        | ioctl hm =>
          cases hi
          exact (h.setFault j config _ hat).move hm hwf
        | ioctlReturn =>
          cases hi
          rcases h.setFault j config _ hat with ⟨hret, hkept⟩ | ⟨hret, hstored⟩
          · exact .inl ⟨hret, hkept.concat _⟩
          · exact .inr ⟨hret, hstored.concat _⟩
      | _ =>
        rw [hi'] at hm
        cases hm <;> cases hi
    · rw [if_neg hij] at hi
      rw [if_neg hij, List.append_nil]
      exact h.setFault i config ctl hi

theorem machine_recorded {tr : List (Move Sys Label)} {s : Sys} (h : machine.Run tr s) :
    Recorded tr s := by
  refine h.induct ?_ ?_
  · intro s hs
    cases hs
    exact ⟨fun _ _ => rfl, by intro i config ctl hi; cases hi⟩
  · intro tr s l t hr ih hl
    rcases Sys.step_cases hl with ⟨op, rfl, rfl⟩ | ⟨j, ch, c, e, rfl, hc, hm, rfl⟩
    · exact ih.invoke op
    · exact ih.step (machine_inv hr) hc hm

/-! ## Every reachable state -/

/-- What the well-formed record means for the calls of a run. -/
structure FaultDiscipline (tr : List (Move Sys Label)) (s : Sys) : Prop where
  wellFormed : s.dev.fault.WellFormed
  /-- A `SET_FAULT` fails and changes nothing, or it stores the canonical form
  of its input and changes nothing else. -/
  setFault : ∀ i config res, s.callAt i = some (.ioctl (.setFault config) (.returned res)) →
    (res.ret < 0 ∧ Kept (stepsOf i tr)) ∨
    (res.ret = 0 ∧ (canonicalForm config).WellFormed ∧ StoredOnce config (stepsOf i tr))
  /-- What a `GET_FAULT` fetches could be set again, and would be stored as
  it is. -/
  getFault : ∀ i res, s.callAt i = some (.ioctl .getFault (.returned res)) →
    (res.ret < 0 ∧ res.config = none) ∨
    ∃ config, res = ⟨0, some config⟩ ∧ config.WellFormed ∧ validateFault config = .ok config
  /-- `vdevlab_fault.repeat--` never wraps around. -/
  decrement : ∀ m ∈ tr, ∀ i ch a l, m.label = .step i ch →
    m.pre.callAt i = some (.read a (.run (.fault l))) → m.pre.dev.fault.type = faultEio →
    1 ≤ m.pre.dev.fault.repeats.toNat ∧
      (m.pre.dev.fault.repeats - 1).toNat = m.pre.dev.fault.repeats.toNat - 1
  /-- The `!repeat` and the `default` branch are dead. -/
  branches : ∀ m ∈ tr, ∀ i ch a l, m.label = .step i ch →
    m.pre.callAt i = some (.read a (.run (.fault l))) →
    (applyReadFaultBranch m.pre.dev.fault l).2 ≠ .eioSpent ∧
      (applyReadFaultBranch m.pre.dev.fault l).2 ≠ .unknown

theorem Sys.Inv.callAt_wf {s : Sys} (h : s.Inv) {i : Nat} {c : Call} (hc : s.callAt i = some c) :
    c.Wf := by
  obtain ⟨caller, hcaller, rfl⟩ := Option.map_eq_some_iff.mp hc
  exact h.calls caller (List.mem_of_getElem? hcaller)

/-- The record was canonical before every move of a run. -/
theorem canonical_before {tr : List (Move Sys Label)} {s : Sys} (h : machine.Run tr s)
    {m : Move Sys Label} (hm : m ∈ tr) : Canonical m.pre.dev.fault := by
  obtain ⟨-, tr', hr⟩ := h.move_step hm
  exact (machine_inv hr).fault

/-- **The fault record is well formed in every reachable state**, over any
interleaving of any number of callers. -/
theorem fault_state_well_formed {tr : List (Move Sys Label)} {s : Sys} (h : machine.Run tr s) :
    FaultDiscipline tr s := by
  have hinv := machine_inv h
  refine ⟨hinv.fault.wellFormed, ?_, ?_, ?_, ?_⟩
  · intro i config res hi
    rcases (machine_recorded h).setFault i config _ hi with hfail | ⟨hret, hstored⟩
    · exact .inl hfail
    · refine .inr ⟨hret, ?_, hstored⟩
      -- a `SET_FAULT` that returned zero had passed the checks
      cases hinv.callAt_wf hi with
      | failed hneg => exact absurd hret hneg.ne
      | done heff =>
        rcases heff with hcmd | hcmd | ⟨config', stored, hcmd, hv⟩
        · cases hcmd
        · cases hcmd
        · cases hcmd
          rw [← validateFault_form hv]
          exact (validateFault_canonical hv).1.wellFormed
      | fetched hcmd => cases hcmd
  · intro i res hi
    cases hinv.callAt_wf hi with
    | failed hneg => exact .inl ⟨hneg, rfl⟩
    | done heff =>
      rcases heff with hcmd | hcmd | ⟨config', stored, hcmd, hv⟩ <;> cases hcmd
    | fetched _ hcanonical =>
      exact .inr ⟨_, rfl, hcanonical.wellFormed, hcanonical.validateFault⟩
  · intro m hm i ch a l _ _ ht
    obtain ⟨n, hpos, -, hfault⟩ := (canonical_before h hm).of_eio ht
    have hpred := toNat_pred hpos
    rw [hfault]
    show 1 ≤ n.toNat ∧ (n - 1).toNat = n.toNat - 1
    omega
  · intro m hm i ch a l _ _
    exact (canonical_before h hm).branch l

/-- Two errors are injected with stray words behind them, one is read, and the
record is fetched. -/
def strayWords : List Label := List.flatten [
  [.invoke (.ioctl (.setFault ⟨faultEio, 2, 7, 9⟩))], List.replicate 5 (.step 0 { reach := 16 }),
  [.invoke (.read ⟨8, true⟩)], List.replicate 3 (.step 1 { reach := 8 }),
  [.invoke (.ioctl .getFault)], List.replicate 3 (.step 2 { reach := 16 })]

theorem fault_state_well_formed_stray : ∃ tr s, machine.Run tr s ∧ FaultDiscipline tr s ∧
    s.callAt 2 = some (.ioctl .getFault (.returned ⟨0, some ⟨faultEio, 1, 0, 0⟩⟩)) := by
  have hrun : (machine.replay Sys.fresh strayWords).map (fun p => p.2.callAt 2)
      = some (some (.ioctl .getFault (.returned ⟨0, some ⟨faultEio, 1, 0, 0⟩⟩))) := by
    decide +kernel
  obtain ⟨tr, s, hr, heq⟩ := Lts.exists_run_of_replay (M := machine) rfl hrun
  exact ⟨tr, s, hr, fault_state_well_formed hr, heq⟩

end VDevLab.Kernel
