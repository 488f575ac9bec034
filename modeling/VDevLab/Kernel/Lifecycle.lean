import VDevLab.Lib.Unwind
import VDevLab.Kernel.Wakeup

/-!
# Loading and unloading

`vdevlab_init` takes the FIFO, the device number, the character device, the
class and the node one after the other, and jumps to the label that gives
back what it has when one of them fails. `vdevlab_exit` gives all five back.
One call into the kernel is one step here, and the environment decides which
calls fail.

The module is not unloaded while a call is in flight: the open file holds it.
-/

namespace VDevLab.Kernel

open Unwind

/-! ## `vdevlab_init` and `vdevlab_exit` -/

/-- `vdevlab_fifo`, `vdevlab_dev`, `vdevlab_cdev`, `vdevlab_class` and
`vdevlab_device`. -/
inductive Resource
  | fifo
  | dev
  | cdev
  | deviceClass
  | device
  deriving DecidableEq, Repr

/-- The error of a kernel function, without its sign. -/
structure Errno where
  code : Int
  pos : 0 < code

/-- Which calls fail, and with what. -/
abbrev Failures := Resource → Option Errno

def errFreeFifo : List (Action Resource) := [.release .fifo]

def errUnregisterChrdev : List (Action Resource) := .release .dev :: errFreeFifo

def errDelCdev : List (Action Resource) := .release .cdev :: errUnregisterChrdev

def errDestroyClass : List (Action Resource) := .release .deviceClass :: errDelCdev

/-- `ret = ...; if (ret) goto label;` and what follows it. -/
def attempt (fails : Failures) (r : Resource) (label : List (Action Resource))
    (next : List (Action Resource) × Int) : List (Action Resource) × Int :=
  match fails r with
  | some e => (label, -e.code)
  | none => (.acquire r :: next.1, next.2)

/-- The calls of `vdevlab_init` and its return value. -/
def vdevlabInit (fails : Failures) : List (Action Resource) × Int :=
  attempt fails .fifo [] <|
  attempt fails .dev errFreeFifo <|
  attempt fails .cdev errUnregisterChrdev <|
  attempt fails .deviceClass errDelCdev <|
  attempt fails .device errDestroyClass ([], 0)

/-- The calls of `vdevlab_exit`. -/
def vdevlabExit : List (Action Resource) :=
  [.release .device, .release .deviceClass, .release .cdev, .release .dev, .release .fifo]

/-- All five, latest first. -/
def allHeld : List Resource := [.device, .deviceClass, .cdev, .dev, .fifo]

def Failures.codes (fails : Failures) (r : Resource) : Option Int := (fails r).map (·.code)

/-- The labels are the general way back. -/
theorem vdevlabInit_eq (fails : Failures) :
    vdevlabInit fails = acquireAll fails.codes [] allHeld.reverse := by
  have hattempt : ∀ r held rs, acquireAll fails.codes held (r :: rs) =
      attempt fails r (held.map .release) (acquireAll fails.codes (r :: held) rs) := by
    intro r held rs
    simp only [acquireAll, attempt, Failures.codes]
    cases fails r <;> rfl
  simp only [allHeld, List.reverse_cons, List.reverse_nil, List.nil_append, List.cons_append,
    hattempt]
  rfl

/-- `vdevlab_init` returns 0, or the error of the first call that failed. -/
theorem vdevlabInit_ret (fails : Failures) :
    (vdevlabInit fails).2 =
      ((allHeld.reverse.findSome? fails).map fun e => -e.code).getD 0 := by
  have hcodes : ∀ rs : List Resource,
      rs.findSome? fails.codes = (rs.findSome? fails).map (·.code) := by
    intro rs
    induction rs with
    | nil => rfl
    | cons r rs ih => cases hr : fails r <;> simp [Failures.codes, hr, ih]
  rw [vdevlabInit_eq, acquireAll_result, hcodes, Option.map_map]
  rfl

theorem vdevlabInit_ret_zero (fails : Failures) :
    (vdevlabInit fails).2 = 0 ↔ ∀ r ∈ allHeld.reverse, fails.codes r = none := by
  rw [vdevlabInit_ret]
  cases hf : allHeld.reverse.findSome? fails with
  | none =>
    rw [List.findSome?_eq_none_iff] at hf
    simpa [Failures.codes] using hf
  | some e =>
    obtain ⟨r, hr, he⟩ := List.exists_of_findSome?_eq_some hf
    have hpos := e.pos
    constructor
    · intro h
      simp at h
      omega
    · intro h
      have := h r hr
      simp [Failures.codes, he] at this

theorem vdevlabInit_safe (fails : Failures) :
    Safe allHeld (if (vdevlabInit fails).2 = 0 then allHeld else []) []
      (vdevlabInit fails).1 := by
  have hsafe : Safe allHeld (if ∀ r ∈ allHeld.reverse, fails.codes r = none then allHeld else [])
      [] (acquireAll fails.codes [] allHeld.reverse).1 :=
    safe_acquireAll fails.codes (by decide) (by simp)
  rw [← vdevlabInit_eq] at hsafe
  rwa [if_congr (vdevlabInit_ret_zero fails) rfl rfl]

/-! ## The module in the kernel -/

inductive Phase
  | unloaded
  /-- What `vdevlab_init` still has to do, and what it will return. -/
  | loading (todo : List (Action Resource)) (ret : Int)
  | loaded
  | unloading (todo : List (Action Resource))
  /-- A call took what is held, or gave back what is not. -/
  | broken
  deriving DecidableEq

/-- Where the module is, what it holds (latest first), and its calls. -/
structure Module where
  phase : Phase
  held : List Resource
  sys : Sys

inductive ModuleLabel
  | insmod (fails : Failures)
  | tick
  | call (l : Label)
  | rmmod

/-- The next call of `vdevlab_init` or `vdevlab_exit`. -/
def Module.tick (m : Module) : Option Module :=
  match m.phase with
  | .loading [] ret => some { m with phase := if ret = 0 then .loaded else .unloaded }
  | .loading (a :: todo) ret =>
      match a.execute m.held with
      | some held => some { m with phase := .loading todo ret, held }
      | none => some { m with phase := .broken }
  | .unloading [] => some { m with phase := .unloaded }
  | .unloading (a :: todo) =>
      match a.execute m.held with
      | some held => some { m with phase := .unloading todo, held }
      | none => some { m with phase := .broken }
  | _ => none

def Module.step (m : Module) : ModuleLabel → Option Module
  | .insmod fails =>
      if m.phase = .unloaded then
        let (todo, ret) := vdevlabInit fails
        -- the record is cleared first, and `kfifo_alloc` leaves an empty FIFO
        some { m with phase := .loading todo ret, sys := .fresh }
      else none
  | .tick => m.tick
  | .call l =>
      if m.phase = .loaded then (m.sys.step l).map fun sys => { m with sys } else none
  | .rmmod =>
      if m.phase = .loaded ∧ m.sys.callers.all (fun c => c.call.returned) then
        some { m with phase := .unloading vdevlabExit }
      else none

/-- A kernel without the module. -/
def kernelModule : Lts Module ModuleLabel := ⟨(· = ⟨.unloaded, [], .fresh⟩), Module.step⟩

/-- What is held fits what is left to be done. -/
def Phase.Fits (held : List Resource) : Phase → Prop
  | .unloaded => held = []
  | .loading todo ret => Safe allHeld (if ret = 0 then allHeld else []) held todo
  | .loaded => held = allHeld
  | .unloading todo => Safe allHeld [] held todo
  | .broken => False

structure Module.Inv (m : Module) : Prop where
  held : m.held <:+ allHeld
  fits : m.phase.Fits m.held
  calls : machine.Reachable m.sys

theorem vdevlabExit_safe : Safe allHeld [] allHeld vdevlabExit :=
  safe_release (List.suffix_refl allHeld)

theorem Module.Inv.tick {m m' : Module} (h : m.Inv) (hs : m.tick = some m') : m'.Inv := by
  have hfits := h.fits
  unfold Module.tick at hs
  split at hs
  · next ret hphase =>
    obtain rfl := Option.some.inj hs
    rw [hphase] at hfits
    have hheld : m.held = if ret = 0 then allHeld else [] := hfits
    refine ⟨h.held, ?_, h.calls⟩
    by_cases hret : ret = 0
    · simpa [hret, Phase.Fits] using hheld
    · simpa [hret, Phase.Fits] using hheld
  · next a todo ret hphase =>
    rw [hphase] at hfits
    obtain ⟨held, hexec, hsuffix, hsafe⟩ := hfits
    rw [hexec] at hs
    obtain rfl := Option.some.inj hs
    exact ⟨hsuffix, hsafe, h.calls⟩
  · next hphase =>
    obtain rfl := Option.some.inj hs
    rw [hphase] at hfits
    exact ⟨h.held, hfits, h.calls⟩
  · next a todo hphase =>
    rw [hphase] at hfits
    obtain ⟨held, hexec, hsuffix, hsafe⟩ := hfits
    rw [hexec] at hs
    obtain rfl := Option.some.inj hs
    exact ⟨hsuffix, hsafe, h.calls⟩
  · cases hs

theorem Module.Inv.step {m m' : Module} {l : ModuleLabel} (h : m.Inv)
    (hs : m.step l = some m') : m'.Inv := by
  cases l with
  | insmod fails =>
    simp only [Module.step] at hs
    split at hs
    · next hphase =>
      obtain rfl := Option.some.inj hs
      have hheld : m.held = [] := by
        have hfits := h.fits
        rwa [hphase] at hfits
      refine ⟨h.held, ?_, [], .start rfl⟩
      rw [hheld]
      exact vdevlabInit_safe fails
    · cases hs
  | tick => exact h.tick hs
  | call l =>
    simp only [Module.step] at hs
    split at hs
    · obtain ⟨sys, hsys, rfl⟩ := Option.map_eq_some_iff.mp hs
      obtain ⟨tr, hr⟩ := h.calls
      exact ⟨h.held, h.fits, _, hr.snoc hsys⟩
    · cases hs
  | rmmod =>
    simp only [Module.step] at hs
    split at hs
    · next hphase =>
      obtain rfl := Option.some.inj hs
      have hheld : m.held = allHeld := by
        have hfits := h.fits
        rwa [hphase.1] at hfits
      refine ⟨h.held, ?_, h.calls⟩
      rw [hheld]
      exact vdevlabExit_safe
    · cases hs

/-- Whatever fails and however often the module is loaded and unloaded: it
never gives back what it does not hold, it holds nothing when it is not
loaded and everything when it is, the calls then see a machine that started
fresh, and a load of which nothing fails succeeds. -/
theorem module_lifecycle {tr : List (Move Module ModuleLabel)} {m : Module}
    (h : kernelModule.Run tr m) :
    m.phase ≠ .broken ∧ m.held <:+ allHeld ∧
    (m.phase = .unloaded → m.held = [] ∧
      ∃ moves m', (kernelModule.replay m (.insmod (fun _ => none) :: List.replicate 6 .tick)) =
        some (moves, m') ∧ m'.phase = .loaded) ∧
    (m.phase = .loaded → m.held = allHeld ∧ machine.Reachable m.sys) := by
  have hinv : m.Inv := by
    refine h.invariant (I := Module.Inv) ?_ fun _ _ _ hi hl => hi.step hl
    rintro _ rfl
    exact ⟨List.nil_suffix, rfl, [], .start rfl⟩
  have hfits := hinv.fits
  refine ⟨fun hphase => ?_, hinv.held, fun hphase => ?_, fun hphase => ?_⟩
  · rw [hphase] at hfits
    exact hfits
  · rw [hphase] at hfits
    have hheld : m.held = [] := hfits
    obtain ⟨phase, held, sys⟩ := m
    cases hphase
    cases hheld
    exact ⟨rfl, _, _, rfl, rfl⟩
  · rw [hphase] at hfits
    exact ⟨hfits, hinv.calls⟩

/-- The class cannot be created, and the next load finds nothing left over. -/
def secondLoad : List ModuleLabel :=
  .insmod (fun r => if r = .deviceClass then some ⟨12, by decide⟩ else none) ::
    List.replicate 7 .tick ++ .insmod (fun _ => none) :: List.replicate 6 .tick

theorem module_lifecycle_secondLoad : ∃ tr m, kernelModule.Run tr m ∧ m.phase = .loaded ∧
    m.held = allHeld ∧ machine.Reachable m.sys := by
  have hrun : (kernelModule.replay ⟨.unloaded, [], .fresh⟩ secondLoad).map (fun p => p.2.phase) =
      some .loaded := rfl
  obtain ⟨tr, m, hr, hphase⟩ := Lts.exists_run_of_replay (M := kernelModule) rfl hrun
  exact ⟨tr, m, hr, hphase, (module_lifecycle hr).2.2.2 hphase⟩

end VDevLab.Kernel
