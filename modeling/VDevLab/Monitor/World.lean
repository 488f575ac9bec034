import VDevLab.Kernel.Moves
import VDevLab.Monitor.Client

/-!
# The monitor on the device

The kernel module with one monitor as its only reader. Other processes write
what and when they like, and one of them makes a single control call,
`SET_FAULT(EIO, n)`, at any time. The monitor's system calls are calls of the
module like any other, so everything they do is interleaved with the rest.

No signal is sent to the monitor, and its read buffer is in its own memory,
so its copies do not fault. When its `poll` times out is left open.
-/

namespace VDevLab.Monitor

open Kernel (Sys Op Choice FaultConfig)

/-- `sizeof(read_buffer)`, on a descriptor opened with `O_NONBLOCK`. -/
abbrev monitorRead : Kernel.ReadArgs := ⟨512, true⟩

/-- The module, the client, its system call in progress, and the control
call, if it was made. -/
structure World where
  sys : Sys
  client : Client
  call : Option Nat
  control : Option Nat

/-- The system call that the client makes next. -/
def Client.request (c : Client) : Option Op :=
  match c.pc with
  | .polling => some (.poll Kernel.EPOLLIN)
  | .reading => some (.read monitorRead)
  | .exited _ => none

/-- `errno` from a negative return value. -/
def errnoOf (ret : Int) : Errno := Fin.ofNat _ (-ret).toNat

def pollOutcome (res : Kernel.PollResult) : PollOutcome :=
  if res.ret < 0 then .failed (errnoOf res.ret)
  else if res.ret = 0 then .timedOut
  else .ready res.revents

def readOutcome (res : Kernel.ReadResult) : ReadOutcome :=
  if res.ret < 0 then .failed (errnoOf res.ret) else .returned res.bytes

/-- What the client learns from a call that has returned. -/
def callOutcome : Kernel.Call → Option Input
  | .read _ (.returned res) => some (.read (readOutcome res))
  | .poll _ (.returned res) => some (.poll (pollOutcome res))
  | _ => none

inductive WorldLabel
  /-- Another process starts a write. -/
  | write (a : Kernel.WriteArgs)
  /-- Another process starts the control call. -/
  | setFault (config : FaultConfig)
  /-- A call of another process makes a step. -/
  | other (i : Nat) (ch : Choice)
  /-- The client makes its next system call. -/
  | issue
  /-- That call makes a step. -/
  | advance (ch : Choice)
  /-- The client goes on with its result. -/
  | handle
  deriving DecidableEq

section Step

variable (o : Options) (n : UInt32) (w : World)

/-- A step of the module alone. -/
def World.device (l : Kernel.Label) : Option World :=
  (w.sys.step l).map fun s => { w with sys := s }

def World.step : WorldLabel → Option World
  | .write a => w.device (.invoke (.write a))
  | .setFault config =>
      if w.control = none ∧ config.type = Kernel.faultEio ∧ config.repeats = n then
        ({ w with control := some w.sys.callers.length } : World).device
          (.invoke (.ioctl (.setFault config)))
      else none
  -- the monitor's own call is stepped by `advance` only
  | .other i ch => if w.call = some i then none else w.device (.step i ch)
  | .issue =>
      if w.call = none then
        w.client.request.bind fun op =>
          ({ w with call := some w.sys.callers.length } : World).device (.invoke op)
      else none
  -- no signal, and a buffer that can be written
  | .advance ch =>
      if ch.signal = false ∧ monitorRead.count ≤ ch.reach then
        w.call.bind fun i => w.device (.step i ch)
      else none
  | .handle => do
      let i ← w.call
      let caller ← w.sys.callers[i]?
      let input ← callOutcome caller.call
      let client ← w.client.step o input
      return { w with client, call := none }

end Step

/-- The loaded module with the monitor in front of its loop. -/
def world (o : Options) (n : UInt32) : Lts World WorldLabel :=
  ⟨(· = ⟨Sys.fresh, .started false, none, none⟩), World.step o n⟩

/-! ## The module's part of a run -/

/-- The step of the module that a label makes. -/
def WorldLabel.device (w : World) : WorldLabel → Option Kernel.Label
  | .write a => some (.invoke (.write a))
  | .setFault config => some (.invoke (.ioctl (.setFault config)))
  | .other i ch => some (.step i ch)
  | .issue => w.client.request.map .invoke
  | .advance ch => w.call.map fun i => .step i ch
  | .handle => none

/-- The moves of the module in a run. -/
def deviceMoves (tr : List (Move World WorldLabel)) : List (Move Sys Kernel.Label) :=
  tr.filterMap fun m => (m.label.device m.pre).map fun l => ⟨m.pre.sys, l, m.post.sys⟩

theorem World.device_eq_some {w w' : World} {l : Kernel.Label} :
    w.device l = some w' ↔ ∃ s, w.sys.step l = some s ∧ w' = { w with sys := s } := by
  simp only [World.device, Option.map_eq_some_iff]
  constructor
  · intro h
    obtain ⟨s, hs, rfl⟩ := h
    exact ⟨s, hs, rfl⟩
  · intro h
    obtain ⟨s, hs, rfl⟩ := h
    exact ⟨s, hs, rfl⟩

/-- What a step of the world can do. -/
inductive WorldMove (o : Options) (n : UInt32) (w : World) : WorldLabel → World → Prop
  | write (a) : WorldMove o n w (.write a) { w with sys := w.sys.invoked (.write a) }
  | setFault {config} : w.control = none → config.type = Kernel.faultEio → config.repeats = n →
      WorldMove o n w (.setFault config)
        { w with sys := w.sys.invoked (.ioctl (.setFault config)),
                 control := some w.sys.callers.length }
  | other {i ch c e} : w.call ≠ some i → w.sys.callers[i]? = some c →
      Kernel.CallMove w.sys.dev ch c.woken c.call e →
      WorldMove o n w (.other i ch) { w with sys := w.sys.after i e }
  | issue {op} : w.call = none → w.client.request = some op →
      WorldMove o n w .issue
        { w with sys := w.sys.invoked op, call := some w.sys.callers.length }
  | advance {i ch c e} : ch.signal = false → monitorRead.count ≤ ch.reach → w.call = some i →
      w.sys.callers[i]? = some c → Kernel.CallMove w.sys.dev ch c.woken c.call e →
      WorldMove o n w (.advance ch) { w with sys := w.sys.after i e }
  | handle {i c input client} : w.call = some i → w.sys.callers[i]? = some c →
      callOutcome c.call = some input → w.client.step o input = some client →
      WorldMove o n w .handle { w with client, call := none }

theorem Sys.step_step {s t : Sys} {i : Nat} {ch : Choice} (h : s.step (.step i ch) = some t) :
    ∃ c e, s.callers[i]? = some c ∧ Kernel.CallMove s.dev ch c.woken c.call e ∧ t = s.after i e := by
  rcases Kernel.Sys.step_cases h with ⟨op, hop, -⟩ | ⟨j, ch', c, e, hj, hc, hm, rfl⟩
  · cases hop
  · cases hj
    exact ⟨c, e, hc, hm, rfl⟩

theorem World.step_move {o : Options} {n : UInt32} {w w' : World} {l : WorldLabel}
    (h : w.step o n l = some w') : WorldMove o n w l w' := by
  cases l with
  | write a =>
    obtain ⟨s, hs, rfl⟩ := World.device_eq_some.mp h
    cases hs
    exact .write a
  | setFault config =>
    simp only [World.step] at h
    split at h
    · next hok =>
      obtain ⟨s, hs, rfl⟩ := World.device_eq_some.mp h
      cases hs
      exact .setFault hok.1 hok.2.1 hok.2.2
    · cases h
  | other i ch =>
    simp only [World.step] at h
    split at h
    · cases h
    · next hne =>
      obtain ⟨s, hs, rfl⟩ := World.device_eq_some.mp h
      obtain ⟨c, e, hc, hm, rfl⟩ := Sys.step_step hs
      exact .other hne hc hm
  | issue =>
    simp only [World.step] at h
    split at h
    · next hcall =>
      obtain ⟨op, hop, h⟩ := Option.bind_eq_some_iff.mp h
      obtain ⟨s, hs, rfl⟩ := World.device_eq_some.mp h
      cases hs
      exact .issue hcall hop
    · cases h
  | advance ch =>
    simp only [World.step] at h
    split at h
    · next hok =>
      obtain ⟨i, hi, h⟩ := Option.bind_eq_some_iff.mp h
      obtain ⟨s, hs, rfl⟩ := World.device_eq_some.mp h
      obtain ⟨c, e, hc, hm, rfl⟩ := Sys.step_step hs
      exact .advance hok.1 hok.2 hi hc hm
    · cases h
  | handle =>
    simp only [World.step, Option.bind_eq_bind, Option.bind_eq_some_iff, Option.pure_def,
      Option.some.injEq] at h
    obtain ⟨i, hi, c, hc, input, hinput, client, hclient, rfl⟩ := h
    exact .handle hi hc hinput hclient

theorem deviceMoves_concat (tr : List (Move World WorldLabel)) (m : Move World WorldLabel) :
    deviceMoves (tr ++ [m]) = deviceMoves tr ++ deviceMoves [m] := by
  simp [deviceMoves, List.filterMap_append]

/-- The module's part of a run is a run of the module. -/
theorem deviceMoves_run {o : Options} {n : UInt32} {tr : List (Move World WorldLabel)} {w : World}
    (h : (world o n).Run tr w) : Kernel.machine.Run (deviceMoves tr) w.sys := by
  induction h with
  | start hs => cases hs; exact .start rfl
  | @snoc tr w l w' hr hl ih =>
    rw [deviceMoves_concat]
    -- every label but `handle` is one step of the module
    have hdevice : ∀ {w₀ : World} {k : Kernel.Label}, w₀.device k = some w' → w₀.sys = w.sys →
        l.device w = some k →
        Kernel.machine.Run (deviceMoves tr ++ deviceMoves [⟨w, l, w'⟩]) w'.sys := by
      intro w₀ k hstep hsys hlabel
      obtain ⟨s, hs, rfl⟩ := World.device_eq_some.mp hstep
      have hmoves : deviceMoves [⟨w, l, { w₀ with sys := s }⟩] = [⟨w.sys, k, s⟩] := by
        simp [deviceMoves, hlabel]
      rw [hmoves]
      rw [hsys] at hs
      exact ih.snoc hs
    have hl : w.step o n l = some w' := hl
    cases l with
    | write a => exact hdevice hl rfl rfl
    | setFault config =>
      simp only [World.step] at hl
      split at hl
      · exact hdevice hl rfl rfl
      · cases hl
    | other i ch =>
      simp only [World.step] at hl
      split at hl
      · cases hl
      · exact hdevice hl rfl rfl
    | issue =>
      simp only [World.step] at hl
      split at hl
      · obtain ⟨op, hop, hl⟩ := Option.bind_eq_some_iff.mp hl
        exact hdevice hl rfl (by simp [WorldLabel.device, hop])
      · cases hl
    | advance ch =>
      simp only [World.step] at hl
      split at hl
      · obtain ⟨i, hi, hl⟩ := Option.bind_eq_some_iff.mp hl
        exact hdevice hl rfl (by simp [WorldLabel.device, hi])
      · cases hl
    | handle =>
      have hmoves : deviceMoves [⟨w, .handle, w'⟩] = [] := rfl
      rw [hmoves, List.append_nil]
      cases World.step_move hl with
      | handle => exact ih

end VDevLab.Monitor
