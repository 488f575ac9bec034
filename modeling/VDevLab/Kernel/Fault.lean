import Mathlib.Data.UInt
import VDevLab.Lib.Check

/-!
# The fault record of the kernel module

`struct vdevlab_fault_config` of `include/vdevlab.h`, the three writers of
the shared record in `kernel/vdevlab_core.c` (clear, the validated store of
`SET_FAULT`, the read path's sample with its decrement), and the canonical
form they keep.
-/

namespace VDevLab.Kernel

open Check

/-! ## Constants of the interface -/

abbrev EINTR : Int := 4
abbrev EIO : Int := 5
abbrev EAGAIN : Int := 11
abbrev EFAULT : Int := 14
abbrev ENODEV : Int := 19
abbrev EINVAL : Int := 22
abbrev ENOTTY : Int := 25
abbrev ERESTARTSYS : Int := 512

abbrev faultNone : UInt32 := 0
abbrev faultEio : UInt32 := 1
abbrev faultDelay : UInt32 := 2
abbrev faultDisconnect : UInt32 := 3
abbrev faultPartialRead : UInt32 := 4

abbrev maxDelayMs : UInt32 := 10000
abbrev maxFaultRepeat : UInt32 := 1000000
abbrev maxPartialRead : UInt32 := 4096

/-- `struct vdevlab_fault_config`; `repeats` is the field `repeat`. -/
structure FaultConfig where
  type : UInt32
  repeats : UInt32
  delayMs : UInt32
  partialReadBytes : UInt32
  deriving DecidableEq, Repr

/-- What `vdevlab_clear_fault_locked` leaves in the record. -/
def clearFaultLocked : FaultConfig :=
  { type := faultNone, repeats := 0, delayMs := 0, partialReadBytes := 0 }

/-- `vdevlab_fault_interrupts_read`. -/
def faultInterruptsRead (fault : FaultConfig) : Bool :=
  fault.type = faultEio || fault.type = faultDisconnect

/-- `vdevlab_is_disconnected`. -/
def isDisconnected (fault : FaultConfig) : Bool :=
  fault.type = faultDisconnect

/-! ## The validation of `VDEVLAB_IOC_SET_FAULT` -/

/-- The checks between `copy_from_user` and the store: the configuration
that is stored, or the negative errno. -/
def validateFault (config : FaultConfig) : Except Int FaultConfig :=
  if config.type > faultPartialRead then .error (-EINVAL)
  else if config.type = faultNone then
    .ok { config with repeats := 0, delayMs := 0, partialReadBytes := 0 }
  else if config.type = faultEio then
    if config.repeats = 0 ∨ config.repeats > maxFaultRepeat then .error (-EINVAL)
    else .ok { config with delayMs := 0, partialReadBytes := 0 }
  else if config.type = faultDelay then
    if config.delayMs = 0 ∨ config.delayMs > maxDelayMs then .error (-EINVAL)
    else .ok { config with repeats := 0, partialReadBytes := 0 }
  else if config.type = faultDisconnect then
    .ok { config with repeats := 0, delayMs := 0, partialReadBytes := 0 }
  else if config.type = faultPartialRead then
    if config.partialReadBytes = 0 ∨ config.partialReadBytes > maxPartialRead then
      .error (-EINVAL)
    else .ok { config with repeats := 0, delayMs := 0 }
  else .error (-EINVAL)

/-- The canonical records: one kind, its own parameter in range, the other
fields zero. -/
inductive Canonical : FaultConfig → Prop
  | none : Canonical clearFaultLocked
  | eio {n : UInt32} : n ≠ 0 → n ≤ maxFaultRepeat → Canonical ⟨faultEio, n, 0, 0⟩
  | delay {ms : UInt32} : ms ≠ 0 → ms ≤ maxDelayMs → Canonical ⟨faultDelay, 0, ms, 0⟩
  | disconnect : Canonical ⟨faultDisconnect, 0, 0, 0⟩
  | partialRead {b : UInt32} : b ≠ 0 → b ≤ maxPartialRead →
      Canonical ⟨faultPartialRead, 0, 0, b⟩

/-- What is stored is canonical and keeps the requested kind. -/
theorem validateFault_canonical {config stored : FaultConfig}
    (h : validateFault config = .ok stored) :
    Canonical stored ∧ stored.type = config.type := by
  obtain ⟨type, repeats, delayMs, bytes⟩ := config
  simp only [validateFault] at h
  rw [ite_error_eq_ok] at h
  obtain ⟨-, h⟩ := h
  -- the cases of the inner switch, in its order
  split at h
  · next ht => cases h; subst ht; exact ⟨.none, rfl⟩
  split at h
  · next ht =>
    rw [ite_error_eq_ok, not_or] at h
    obtain ⟨⟨hpos, hmax⟩, h⟩ := h
    cases h; subst ht
    exact ⟨.eio hpos (UInt32.not_lt.mp hmax), rfl⟩
  split at h
  · next ht =>
    rw [ite_error_eq_ok, not_or] at h
    obtain ⟨⟨hpos, hmax⟩, h⟩ := h
    cases h; subst ht
    exact ⟨.delay hpos (UInt32.not_lt.mp hmax), rfl⟩
  split at h
  · next ht => cases h; subst ht; exact ⟨.disconnect, rfl⟩
  split at h
  · next ht =>
    rw [ite_error_eq_ok, not_or] at h
    obtain ⟨⟨hpos, hmax⟩, h⟩ := h
    cases h; subst ht
    exact ⟨.partialRead hpos (UInt32.not_lt.mp hmax), rfl⟩
  · cases h

/-- A canonical record is accepted and stored unchanged. -/
theorem Canonical.validateFault {config : FaultConfig} (h : Canonical config) :
    validateFault config = .ok config := by
  cases h with
  | none => rfl
  | eio hpos hmax => simp +decide [Kernel.validateFault, hpos, UInt32.not_lt.mpr hmax]
  | delay hpos hmax => simp +decide [Kernel.validateFault, hpos, UInt32.not_lt.mpr hmax]
  | disconnect => rfl
  | partialRead hpos hmax => simp +decide [Kernel.validateFault, hpos, UInt32.not_lt.mpr hmax]

/-- An EIO request is stored with its own count. -/
theorem validateFault_repeats {config stored : FaultConfig}
    (h : validateFault config = .ok stored) (ht : config.type = faultEio) :
    stored.repeats = config.repeats := by
  simp only [validateFault, ht] at h
  rw [if_neg (by decide), if_neg (by decide), if_true, ite_error_eq_ok] at h
  cases h.2
  rfl

/-- A delay request is accepted only within the kernel's limits. -/
theorem validateFault_delayMs {config stored : FaultConfig}
    (h : validateFault config = .ok stored) (ht : config.type = faultDelay) :
    config.delayMs ≠ 0 ∧ config.delayMs ≤ maxDelayMs := by
  simp only [validateFault, ht] at h
  rw [if_neg (by decide), if_neg (by decide), if_neg (by decide), if_true, ite_error_eq_ok,
    not_or] at h
  exact ⟨h.1.1, UInt32.not_lt.mp h.1.2⟩

/-! ## The sample taken by a read -/

/-- The locals of `vdevlab_read` that live outside its loop. -/
structure ReadLocals where
  delayApplied : Bool
  partialReadBytes : UInt32
  deriving DecidableEq, Repr

/-- What the locked part of `vdevlab_apply_read_fault` leaves behind. -/
structure FaultSample where
  fault : FaultConfig
  locals : ReadLocals
  delayMs : UInt32
  ret : Int
  deriving DecidableEq, Repr

/-- The record after one EIO occurrence was taken from it. -/
def takeOccurrence (fault : FaultConfig) : FaultConfig :=
  if fault.repeats - 1 = 0 then clearFaultLocked
  else { fault with repeats := fault.repeats - 1 }

/-- The `switch` of `vdevlab_apply_read_fault`, under `vdevlab_fault_lock`. -/
def applyReadFault (fault : FaultConfig) (l : ReadLocals) : FaultSample :=
  if fault.type = faultNone then ⟨fault, l, 0, 0⟩
  else if fault.type = faultEio then
    if fault.repeats = 0 then ⟨clearFaultLocked, l, 0, 0⟩
    else ⟨takeOccurrence fault, l, 0, - EIO⟩
  else if fault.type = faultDelay then
    if !l.delayApplied then ⟨fault, { l with delayApplied := true }, fault.delayMs, 0⟩
    else ⟨fault, l, 0, 0⟩
  else if fault.type = faultPartialRead then
    ⟨fault, { l with partialReadBytes := fault.partialReadBytes }, 0, 0⟩
  else if fault.type = faultDisconnect then ⟨fault, l, 0, -ENODEV⟩
  else ⟨fault, l, 0, -EINVAL⟩

/-- Occurrences left in the active fault. -/
def remaining (fault : FaultConfig) : Nat :=
  if fault.type = faultEio then fault.repeats.toNat else 0

@[simp] theorem remaining_clear : remaining clearFaultLocked = 0 := rfl

/-- The canonical EIO records are the only canonical records of that type. -/
theorem Canonical.of_eio {fault : FaultConfig} (h : Canonical fault)
    (ht : fault.type = faultEio) :
    ∃ n : UInt32, n ≠ 0 ∧ n ≤ maxFaultRepeat ∧ fault = ⟨faultEio, n, 0, 0⟩ := by
  cases h with
  | eio hpos hmax => exact ⟨_, hpos, hmax, rfl⟩
  | none => exact absurd (show faultNone = faultEio from ht) (by decide)
  | delay => exact absurd (show faultDelay = faultEio from ht) (by decide)
  | disconnect => exact absurd (show faultDisconnect = faultEio from ht) (by decide)
  | partialRead => exact absurd (show faultPartialRead = faultEio from ht) (by decide)

theorem toNat_pred {n : UInt32} (h : n ≠ 0) : (n - 1).toNat + 1 = n.toNat := by
  have hpos : 1 ≤ n.toNat := by
    rcases Nat.eq_zero_or_pos n.toNat with h0 | h0
    · exact absurd (UInt32.toNat_inj.mp h0) h
    · exact h0
  have hle : (1 : UInt32) ≤ n := UInt32.le_iff_toNat_le.mpr hpos
  rw [UInt32.toNat_sub_of_le _ _ hle]
  exact Nat.sub_add_cancel hpos

/-- Taking an occurrence lowers what is left by exactly one. -/
theorem remaining_takeOccurrence {fault : FaultConfig} (ht : fault.type = faultEio)
    (hpos : fault.repeats ≠ 0) : remaining (takeOccurrence fault) + 1 = remaining fault := by
  have hpred := toNat_pred hpos
  unfold takeOccurrence
  split
  · next h0 =>
    rw [h0] at hpred
    rw [remaining_clear, remaining, if_pos ht]
    exact hpred
  · rw [remaining, remaining, if_pos ht, if_pos ht]
    exact hpred

/-- The step that takes the last occurrence leaves the state NONE. -/
theorem takeOccurrence_last {fault : FaultConfig} (ht : fault.type = faultEio)
    (h1 : remaining fault = 1) : takeOccurrence fault = clearFaultLocked := by
  rw [remaining, if_pos ht] at h1
  have hone : fault.repeats = 1 := UInt32.toNat_inj.mp h1
  rw [takeOccurrence, hone]
  rfl

theorem Canonical.takeOccurrence {fault : FaultConfig} (h : Canonical fault)
    (ht : fault.type = faultEio) : Canonical (takeOccurrence fault) := by
  obtain ⟨n, hpos, hmax, rfl⟩ := h.of_eio ht
  unfold Kernel.takeOccurrence
  split
  · exact .none
  · next hne =>
    refine .eio hne ?_
    have := toNat_pred hpos
    rw [UInt32.le_iff_toNat_le] at hmax ⊢
    show (n - 1).toNat ≤ _
    omega

/-- The sample changes the record only by taking an occurrence, and then
the read it belongs to fails with EIO; no other sample returns EIO. -/
theorem applyReadFault_cases {fault : FaultConfig} (h : Canonical fault) (l : ReadLocals) :
    (fault.type = faultEio ∧ fault.repeats ≠ 0 ∧
      applyReadFault fault l = ⟨takeOccurrence fault, l, 0, - EIO⟩) ∨
    (fault.type ≠ faultEio ∧ (applyReadFault fault l).fault = fault ∧
      (applyReadFault fault l).ret ≠ - EIO) := by
  cases h with
  | eio hpos hmax => exact .inl ⟨rfl, hpos, by simp +decide [applyReadFault, hpos]⟩
  | none => exact .inr ⟨by decide, rfl, by simp +decide [applyReadFault, clearFaultLocked]⟩
  | delay =>
    refine .inr ⟨by simp +decide, ?_⟩
    cases hd : l.delayApplied <;> simp +decide [applyReadFault, hd]
  | disconnect => exact .inr ⟨by decide, rfl, by simp +decide [applyReadFault]⟩
  | partialRead => exact .inr ⟨by simp +decide, rfl, by simp +decide [applyReadFault]⟩

theorem Canonical.applyReadFault {fault : FaultConfig} (h : Canonical fault) (l : ReadLocals) :
    Canonical (applyReadFault fault l).fault := by
  rcases applyReadFault_cases h l with ⟨ht, -, hs⟩ | ⟨-, hf, -⟩
  · rw [hs]; exact h.takeOccurrence ht
  · rw [hf]; exact h

end VDevLab.Kernel
