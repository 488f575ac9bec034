import VDevLab.Kernel.Calls

/-!
# A call with nobody else

What one call does when no other call moves: its own steps, one after the
other, under one choice of the environment.
-/

namespace VDevLab.Kernel

/-- At most `fuel` steps of the call. -/
def Call.alone (ch : Choice) : Nat → Device → Bool → Call → Device × Call
  | 0, d, _, c => (d, c)
  | fuel + 1, d, woken, c =>
      match c.step d ch woken with
      | none => (d, c)
      | some e => Call.alone ch fuel e.dev e.woken e.ctl

/-- The longest run of an ioctl: test, store, two wake-ups, return. -/
abbrev ioctlSteps : Nat := 5

/-- `ioctl(2)` with nobody else: the device it leaves and its result. -/
def ioctlAlone (cmd : IoctlCmd) (reach : Nat) (d : Device) : Option (Device × IoctlResult) :=
  match Call.alone { reach } ioctlSteps d false (Op.ioctl cmd).call with
  | (d', .ioctl _ (.returned res)) => some (d', res)
  | _ => none

/-- An accepted `SET_FAULT` stores what the validation returned. -/
theorem ioctlAlone_setFault {config stored : FaultConfig} {reach : Nat}
    (hreach : faultConfigSize ≤ reach) (h : validateFault config = .ok stored) (d : Device) :
    ioctlAlone (.setFault config) reach d = some ({ d with fault := stored }, ⟨0, none⟩) := by
  simp [ioctlAlone, Call.alone, Op.call, Call.step, Ctl.step, ioctlStep, goto, Effect.map,
    Nat.not_lt.mpr hreach, h]

/-- A refused `SET_FAULT` returns the errno and leaves the device alone. -/
theorem ioctlAlone_setFault_refused {config : FaultConfig} {e : Int} {reach : Nat}
    (hreach : faultConfigSize ≤ reach) (h : validateFault config = .error e) (d : Device) :
    ioctlAlone (.setFault config) reach d = some (d, ⟨e, none⟩) := by
  simp [ioctlAlone, Call.alone, Op.call, Call.step, Ctl.step, ioctlStep, goto, Effect.map,
    Nat.not_lt.mpr hreach, h]

end VDevLab.Kernel
