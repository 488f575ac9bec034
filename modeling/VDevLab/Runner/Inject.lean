import VDevLab.Kernel.Stream

/-!
# `LinuxDeviceBackend.write` puts its data in once

The loop of `src/vdevlab/runner.py` around `os.write`, first over any sequence
of outcomes, then with `vdevlab_write` under it and other processes at work on
the device. The descriptor blocks, and the bytes object that `os.write` hands
to the kernel can always be read.

An interrupted system call moved no byte, so making it again is right; a
count says how far the slice is to move. What enters the FIFO is the data
once, in order, whatever its length.
-/

namespace VDevLab.Runner

open Kernel (Sys Call Op Choice Ctl CallMove Effect Device WriteArgs)

/-! ## The loop -/

/-- What leaves `write` instead of a return. -/
inductive WriteError
  /-- An `OSError` of the system call. -/
  | os (errno : Nat)
  /-- `OSError(errno.EIO, "device write made no progress")`. -/
  | noProgress
  /-- `RunnerError("device backend is closed")` of `_fileno`. -/
  | closed
  deriving DecidableEq

/-- What one `os.write` does: `InterruptedError`, a count, another `OSError`. -/
inductive OsWrite
  | interrupted
  | wrote (count : Nat)
  | failed (errno : Nat)
  deriving DecidableEq

/-- Where the loop stands: it offers its slice to `os.write`, or it is over. -/
inductive WriteLoop
  | offers (remaining : List UInt8)
  | returned
  | raised (e : WriteError)
  deriving DecidableEq

/-- The head of the loop, up to `os.write`. -/
def WriteLoop.enter (isOpen : Bool) (remaining : List UInt8) : WriteLoop :=
  if remaining = [] then .returned
  else if isOpen then .offers remaining
  else .raised .closed

/-- The body of the loop behind `os.write`. -/
def WriteLoop.next (isOpen : Bool) (remaining : List UInt8) : OsWrite → WriteLoop
  | .interrupted => .enter isOpen remaining
  | .wrote count =>
      if count = 0 then .raised .noProgress else .enter isOpen (remaining.drop count)
  | .failed errno => .raised (.os errno)

/-- The bytes that the device accepted of the slice. -/
def OsWrite.chunk (remaining : List UInt8) : OsWrite → List UInt8
  | .interrupted => []
  | .wrote count => remaining.take count
  | .failed _ => []

/-- The loop over the outcomes of its calls, with the chunks accepted. It
stays where it is when the outcomes are used up. -/
def writeFrom (isOpen : Bool) : WriteLoop → List OsWrite → List (List UInt8) × WriteLoop
  | .offers remaining, o :: os =>
      let rest := writeFrom isOpen (.next isOpen remaining o) os
      (o.chunk remaining :: rest.1, rest.2)
  | loop, _ => ([], loop)

/-- `write`. -/
def write (isOpen : Bool) (data : List UInt8) (outcomes : List OsWrite) :
    List (List UInt8) × WriteLoop :=
  writeFrom isOpen (.enter isOpen data) outcomes

/-- How much of `data` the loop has still to hand over when the device has
accepted `done`. -/
def WriteLoop.Owes (data done : List UInt8) : WriteLoop → Prop
  | .offers remaining => remaining ≠ [] ∧ done ++ remaining = data
  | .returned => done = data
  | .raised _ => ∃ remaining, remaining ≠ [] ∧ done ++ remaining = data

theorem WriteLoop.owes_enter {data done remaining : List UInt8} (h : done ++ remaining = data)
    (isOpen : Bool) : (WriteLoop.enter isOpen remaining).Owes data done := by
  unfold WriteLoop.enter
  split
  · next hnil =>
    rw [hnil, List.append_nil] at h
    exact h
  · next hne =>
    split
    · exact ⟨hne, h⟩
    · exact ⟨remaining, hne, h⟩

/-- One outcome: the chunk goes from what is owed to what is done. -/
theorem WriteLoop.owes_next {data done remaining : List UInt8} (hne : remaining ≠ [])
    (h : done ++ remaining = data) (isOpen : Bool) (o : OsWrite) :
    (WriteLoop.next isOpen remaining o).Owes data (done ++ o.chunk remaining) := by
  cases o with
  | interrupted =>
    rw [OsWrite.chunk, List.append_nil]
    exact owes_enter h isOpen
  | wrote count =>
    simp only [WriteLoop.next, OsWrite.chunk]
    split
    · next h0 =>
      rw [h0, List.take_zero, List.append_nil]
      exact ⟨remaining, hne, h⟩
    · apply owes_enter
      rw [List.append_assoc, List.take_append_drop]
      exact h
  | failed errno =>
    rw [OsWrite.chunk, List.append_nil]
    exact ⟨remaining, hne, h⟩

theorem writeFrom_owes (isOpen : Bool) {data : List UInt8} (outcomes : List OsWrite) :
    ∀ {loop : WriteLoop} {done : List UInt8}, loop.Owes data done →
      (writeFrom isOpen loop outcomes).2.Owes data
        (done ++ (writeFrom isOpen loop outcomes).1.flatten) := by
  induction outcomes with
  | nil =>
    intro loop done h
    cases loop <;> simpa [writeFrom] using h
  | cons o os ih =>
    intro loop done h
    cases loop with
    | offers remaining =>
      obtain ⟨hne, hdata⟩ := h
      have hrest := ih (WriteLoop.owes_next hne hdata isOpen o)
      rw [List.append_assoc] at hrest
      exact hrest
    | returned => simpa [writeFrom] using h
    | raised e => simpa [writeFrom] using h

/-- What the loop does over a sequence of outcomes. -/
structure WriteLaw (data : List UInt8) (result : List (List UInt8) × WriteLoop) : Prop where
  returned : result.2 = .returned → result.1.flatten = data
  raised : ∀ e, result.2 = .raised e → result.1.flatten <+: data ∧ result.1.flatten ≠ data

theorem write_law (isOpen : Bool) (data : List UInt8) (outcomes : List OsWrite) :
    WriteLaw data (write isOpen data outcomes) := by
  have hstart : [] ++ data = data := List.nil_append data
  have howes := writeFrom_owes isOpen outcomes (WriteLoop.owes_enter hstart isOpen)
  rw [List.nil_append] at howes
  constructor
  · intro hret
    rw [write] at hret
    rw [hret] at howes
    exact howes
  · intro e hraised
    rw [write] at hraised
    rw [hraised] at howes
    obtain ⟨remaining, hne, hdata⟩ := howes
    refine ⟨⟨remaining, hdata⟩, ?_⟩
    intro heq
    apply hne
    exact List.append_right_eq_self.mp (hdata.trans heq.symm)

/-- What a call does to the slice. -/
structure SliceLaw (isOpen : Bool) (remaining : List UInt8) : Prop where
  /-- A positive count moves the slice on, and it gets shorter. -/
  shortens : ∀ count, 0 < count →
    WriteLoop.next isOpen remaining (.wrote count) = .enter isOpen (remaining.drop count) ∧
      (remaining.drop count).length < remaining.length
  /-- An interruption leaves it as it is. -/
  keeps : WriteLoop.next isOpen remaining .interrupted = .enter isOpen remaining

theorem slice_law (isOpen : Bool) {remaining : List UInt8} (hne : remaining ≠ []) :
    SliceLaw isOpen remaining := by
  refine ⟨?_, rfl⟩
  intro count hcount
  have hlen : remaining.length ≠ 0 := by simpa using hne
  constructor
  · rw [WriteLoop.next, if_neg (by omega)]
  · rw [List.length_drop]
    omega

/-! ## The loop on the device -/

/-- The module, the loop, and its system call in progress. -/
structure Site where
  sys : Sys
  loop : WriteLoop
  call : Option Nat

inductive SiteLabel
  /-- Another process starts a call. -/
  | invoke (op : Op)
  /-- A call of another process makes a step. -/
  | other (i : Nat) (ch : Choice)
  /-- The loop calls `os.write`. -/
  | issue
  /-- That call makes a step. -/
  | advance (ch : Choice)
  /-- The loop goes on with its result. -/
  | handle
  deriving DecidableEq

/-- What `os.write` makes of the result. A call that is to be restarted is
made again with the same arguments, as after `InterruptedError`. -/
def osWrite (ret : Int) : OsWrite :=
  if ret = -Kernel.EINTR ∨ ret = -Kernel.ERESTARTSYS then .interrupted
  else if ret < 0 then .failed (-ret).toNat
  else .wrote ret.toNat

section Step

variable (s : Site)

/-- A step of the module alone. -/
def Site.device (l : Kernel.Label) : Option Site :=
  (s.sys.step l).map fun t => { s with sys := t }

def Site.step : SiteLabel → Option Site
  | .invoke op => s.device (.invoke op)
  -- the loop's own call is stepped by `advance` only
  | .other i ch => if s.call = some i then none else s.device (.step i ch)
  | .issue =>
      match s.loop, s.call with
      | .offers remaining, none =>
          ({ s with call := some s.sys.callers.length } : Site).device
            (.invoke (.write ⟨remaining, false⟩))
      | _, _ => none
  -- the slice can be read
  | .advance ch =>
      match s.loop, s.call with
      | .offers remaining, some i =>
          if remaining.length ≤ ch.reach then s.device (.step i ch) else none
      | _, _ => none
  | .handle =>
      match s.loop, s.call.bind s.sys.callAt with
      | .offers remaining, some (.write _ (.returned ret)) =>
          some { s with loop := .next true remaining (osWrite ret), call := none }
      | _, _ => none

end Step

/-- The module in any state it can reach, with a process that enters `write`. -/
def site (data : List UInt8) : Lts Site SiteLabel :=
  ⟨fun s => Kernel.machine.Reachable s.sys ∧ s.loop = .enter true data ∧ s.call = none, Site.step⟩

/-- The bytes that a step of call `i` puts into the FIFO. -/
def acceptedBy (s : Sys) (i : Nat) (ch : Choice) : List UInt8 :=
  ((s.callAt i).map (Call.accepts s.dev ch)).getD []

/-- The bytes that a step puts into the FIFO. -/
def Site.entered (s : Site) : SiteLabel → List UInt8
  | .other i ch => acceptedBy s.sys i ch
  | .advance ch => (s.call.map fun i => acceptedBy s.sys i ch).getD []
  | _ => []

/-- Those of the loop's own calls. -/
def Site.injected (s : Site) : SiteLabel → List UInt8
  | .advance ch => s.entered (.advance ch)
  | _ => []

/-- The bytes that entered the FIFO, in order. -/
def enteredBytes (tr : List (Move Site SiteLabel)) : List UInt8 :=
  tr.flatMap fun m => m.pre.entered m.label

def injectedBytes (tr : List (Move Site SiteLabel)) : List UInt8 :=
  tr.flatMap fun m => m.pre.injected m.label

def isWrite : Call → Bool
  | .write _ _ => true
  | _ => false

/-- The step is one of another process's write. -/
def Site.otherWrites (s : Site) : SiteLabel → Bool
  | .other i _ => ((s.sys.callAt i).map isWrite).getD false
  | _ => false

/-- No other process is in the middle of a write. -/
def NoOtherWriter (tr : List (Move Site SiteLabel)) : Prop :=
  ∀ m ∈ tr, m.pre.otherWrites m.label = false

/-- What a step of the site can do. -/
inductive SiteMove (s : Site) : SiteLabel → Site → Prop
  | invoke {op} : SiteMove s (.invoke op) { s with sys := s.sys.invoked op }
  | other {i ch t} : s.call ≠ some i → s.sys.step (.step i ch) = some t →
      SiteMove s (.other i ch) { s with sys := t }
  | issue {remaining} : s.loop = .offers remaining → s.call = none →
      SiteMove s .issue { s with
        sys := s.sys.invoked (.write ⟨remaining, false⟩), call := some s.sys.callers.length }
  | advance {remaining i ch t} : s.loop = .offers remaining → s.call = some i →
      remaining.length ≤ ch.reach → s.sys.step (.step i ch) = some t →
      SiteMove s (.advance ch) { s with sys := t }
  | handle {remaining i a ret} : s.loop = .offers remaining → s.call = some i →
      s.sys.callAt i = some (.write a (.returned ret)) →
      SiteMove s .handle { s with loop := .next true remaining (osWrite ret), call := none }

theorem Site.device_eq_some {s s' : Site} {l : Kernel.Label} (h : s.device l = some s') :
    ∃ t, s.sys.step l = some t ∧ s' = { s with sys := t } := by
  obtain ⟨t, ht, rfl⟩ := Option.map_eq_some_iff.mp h
  exact ⟨t, ht, rfl⟩

theorem Site.step_move {s s' : Site} {l : SiteLabel} (h : s.step l = some s') :
    SiteMove s l s' := by
  cases l with
  | invoke op =>
    obtain ⟨t, ht, rfl⟩ := Site.device_eq_some h
    cases ht
    exact .invoke
  | other i ch =>
    simp only [Site.step] at h
    split at h
    · cases h
    · next hne =>
      obtain ⟨t, ht, rfl⟩ := Site.device_eq_some h
      exact .other hne ht
  | issue =>
    simp only [Site.step] at h
    split at h
    · next remaining hloop hcall =>
      obtain ⟨t, ht, rfl⟩ := Site.device_eq_some h
      cases ht
      exact .issue hloop hcall
    · cases h
  | advance ch =>
    simp only [Site.step] at h
    split at h
    · next remaining i hloop hcall =>
      split at h
      · next hreach =>
        obtain ⟨t, ht, rfl⟩ := Site.device_eq_some h
        exact .advance hloop hcall hreach ht
      · cases h
    · cases h
  | handle =>
    simp only [Site.step] at h
    split at h
    · next remaining a ret hloop hbind =>
      cases h
      obtain ⟨i, hcall, hat⟩ := Option.bind_eq_some_iff.mp hbind
      exact .handle hloop hcall hat
    · cases h

/-! ## What the loop's own call puts in -/

/-- The part of its data that a write has put into the FIFO. -/
def written (c : Call) : List UInt8 :=
  match c with
  | .write a _ => a.data.take ((c.writeResult.map Int.toNat).getD 0)
  | _ => []

/-- The result of a write of readable data: an error, or a count. -/
def HonestWrite (data : List UInt8) (ctl : Ctl Kernel.WritePc Int) : Prop :=
  ∀ ret, (Call.write ⟨data, false⟩ ctl).writeResult = some ret →
    ret < 0 ∨ ∃ n : Nat, n ≠ 0 ∧ n ≤ data.length ∧ ret = n

theorem HonestWrite.undecided {data : List UInt8} {ctl : Ctl Kernel.WritePc Int}
    (h : (Call.write ⟨data, false⟩ ctl).writeResult = none) : HonestWrite data ctl := by
  intro ret hret
  rw [h] at hret
  cases hret

/-- Data that can be read is copied as far as there is room. -/
theorem userCopy_readable {data : List UInt8} {d : Device} {ch : Choice} (hne : data ≠ [])
    (hreach : data.length ≤ ch.reach) (hroom : Kernel.kfifoIsFull d = false) :
    (Kernel.userCopy (Kernel.writeToCopy ⟨data, false⟩ d) ch.reach).copied ≠ 0 := by
  have hcopy : Kernel.writeToCopy ⟨data, false⟩ d ≠ 0 :=
    Kernel.writeToCopy_ne_zero (a := ⟨data, false⟩) hne hroom
  have hle : Kernel.writeToCopy ⟨data, false⟩ d ≤ data.length := Nat.min_le_left ..
  show min _ _ ≠ 0
  omega

/-- A move of the loop's call: it stays honest, and what it puts in is what it
will report. -/
theorem own_move {data : List UInt8} {ctl : Ctl Kernel.WritePc Int} {d : Device} {ch : Choice}
    {woken : Bool} {e : Effect Call} (hne : data ≠ []) (hreach : data.length ≤ ch.reach)
    (hhonest : HonestWrite data ctl) (hm : CallMove d ch woken (.write ⟨data, false⟩ ctl) e) :
    ∃ ctl', e.ctl = .write ⟨data, false⟩ ctl' ∧ HonestWrite data ctl' ∧
      written e.ctl = written (.write ⟨data, false⟩ ctl)
        ++ Call.accepts d ch (.write ⟨data, false⟩ ctl) := by
  cases hm with
  | writeReturn => exact ⟨_, rfl, hhonest, (List.append_nil _).symm⟩
  | @write _ pc e hm =>
    refine ⟨e.ctl, rfl, ?_⟩
    -- the moves that fail, and those that decide nothing yet
    have hfail : ∀ {ret : Int}, ret < 0 → HonestWrite data (.exit ret) ∧
        written (.write ⟨data, false⟩ (.exit ret)) = [] := by
      intro ret hneg
      refine ⟨fun r hr => .inl ?_, ?_⟩
      · cases hr
        exact hneg
      · show data.take ret.toNat = []
        rw [Int.toNat_of_nonpos hneg.le, List.take_zero]
    cases hm with
    | zero h0 => exact absurd h0 hne
    | gone => exact hfail (by decide)
    | again => exact hfail (by decide)
    | waitInterrupted => exact hfail (by decide)
    | lockInterrupted hs =>
      refine ⟨(hfail (by decide)).1, ?_⟩
      simp [written, Call.accepts, Kernel.Call.writeResult, Effect.map, hs]
    | lockedAgain hs hfull hn => cases hn
    | lockedRestart hs hfull =>
      refine ⟨.undecided rfl, ?_⟩
      simp [written, Call.accepts, Kernel.Call.writeResult, Effect.map, hfull]
    | @enqueue c hs hfull hcopy hmoved =>
      subst hcopy
      refine ⟨fun r hr => .inr ⟨_, hmoved, ?_, ?_⟩, ?_⟩
      · exact (Kernel.userCopy_copied_le _ _).trans (Nat.min_le_left _ _)
      · cases hr
        exact Kernel.copyResult_moved hmoved
      · simp [written, Call.accepts, Kernel.Call.writeResult, Effect.map, hs, hfull,
          Kernel.copyResult_moved hmoved]
    | copyFault hs hfull hcopy hmoved =>
      subst hcopy
      exact absurd hmoved (userCopy_readable hne hreach hfull)
    | wake => exact ⟨fun r hr => hhonest r hr, (List.append_nil _).symm⟩
    | _ => exact ⟨.undecided rfl, rfl⟩

/-! ## Over every run -/

/-- The bytes that the call in progress has put in. -/
def Site.pending (s : Site) : List UInt8 := ((s.call.bind s.sys.callAt).map written).getD []

structure SiteInv (data : List UInt8) (tr : List (Move Site SiteLabel)) (s : Site) : Prop where
  /-- The call in progress is a write of the slice on offer. -/
  own : ∀ i, s.call = some i → ∃ remaining ctl, s.loop = .offers remaining ∧
    s.sys.callAt i = some (.write ⟨remaining, false⟩ ctl) ∧ HonestWrite remaining ctl
  /-- What the loop has not counted yet is what that call has put in. -/
  bytes : ∃ done, injectedBytes tr = done ++ s.pending ∧ s.loop.Owes data done
  progress : s.loop ≠ .raised .noProgress

theorem injectedBytes_concat (tr : List (Move Site SiteLabel)) (m : Move Site SiteLabel) :
    injectedBytes (tr ++ [m]) = injectedBytes tr ++ m.pre.injected m.label := by
  simp [injectedBytes]

theorem Site.pending_of {s : Site} {i : Nat} {c : Call} (hcall : s.call = some i)
    (hc : s.sys.callAt i = some c) : s.pending = written c := by
  rw [Site.pending, hcall, Option.bind_some, hc]
  rfl

theorem WriteLoop.enter_ne_noProgress (remaining : List UInt8) :
    WriteLoop.enter true remaining ≠ .raised .noProgress := by
  unfold WriteLoop.enter
  split
  · simp
  · simp

section Steps

variable {data : List UInt8} {tr : List (Move Site SiteLabel)} {s : Site}

/-- A step that leaves the loop and its call alone. -/
theorem SiteInv.aside (h : SiteInv data tr s) {l : SiteLabel} {t : Sys}
    (hat : ∀ i, s.call = some i → t.callAt i = s.sys.callAt i) (hl : s.injected l = []) :
    SiteInv data (tr ++ [⟨s, l, { s with sys := t }⟩]) { s with sys := t } := by
  have hpending : Site.pending { s with sys := t } = s.pending := by
    unfold Site.pending
    cases hcall : s.call with
    | none => rfl
    | some i => rw [Option.bind_some, Option.bind_some, hat i hcall]
  refine ⟨?_, ?_, h.progress⟩
  · intro i hi
    obtain ⟨remaining, ctl, hloop, hc, hhonest⟩ := h.own i hi
    exact ⟨remaining, ctl, hloop, (hat i hi).trans hc, hhonest⟩
  · rw [injectedBytes_concat, hl, List.append_nil, hpending]
    exact h.bytes

theorem SiteInv.invoke (h : SiteInv data tr s) (op : Op) :
    SiteInv data (tr ++ [⟨s, .invoke op, { s with sys := s.sys.invoked op }⟩])
      { s with sys := s.sys.invoked op } := by
  refine h.aside ?_ rfl
  intro i hi
  obtain ⟨remaining, ctl, -, hc, -⟩ := h.own i hi
  have hlt : i < s.sys.callers.length := by
    obtain ⟨c, hget, -⟩ := Option.map_eq_some_iff.mp hc
    exact (List.getElem?_eq_some_iff.mp hget).1
  rw [Kernel.Sys.callAt_invoked, if_neg (by omega)]

theorem SiteInv.other (h : SiteInv data tr s) {i : Nat} {ch : Choice} {t : Sys}
    (hne : s.call ≠ some i) (ht : s.sys.step (.step i ch) = some t) :
    SiteInv data (tr ++ [⟨s, .other i ch, { s with sys := t }⟩]) { s with sys := t } := by
  refine h.aside ?_ rfl
  rcases Kernel.Sys.step_cases ht with ⟨op, hop, -⟩ | ⟨j, ch', c, e, hl, hc, -, rfl⟩
  · cases hop
  · cases hl
    intro j hj
    rw [Kernel.Sys.callAt_after hc, if_neg]
    intro hij
    exact hne (hij ▸ hj)

theorem SiteInv.issue (h : SiteInv data tr s) {remaining : List UInt8}
    (hloop : s.loop = .offers remaining) (hcall : s.call = none) :
    SiteInv data (tr ++ [⟨s, .issue, { s with
        sys := s.sys.invoked (.write ⟨remaining, false⟩), call := some s.sys.callers.length }⟩])
      { s with
        sys := s.sys.invoked (.write ⟨remaining, false⟩), call := some s.sys.callers.length } := by
  have hat : (s.sys.invoked (.write ⟨remaining, false⟩)).callAt s.sys.callers.length
      = some (.write ⟨remaining, false⟩ (.run .start)) := by
    rw [Kernel.Sys.callAt_invoked, if_pos rfl]
    rfl
  refine ⟨?_, ?_, h.progress⟩
  · intro i hi
    cases hi
    exact ⟨remaining, _, hloop, hat, .undecided rfl⟩
  · obtain ⟨done, hdone, howes⟩ := h.bytes
    have hnone : s.pending = [] := by
      rw [Site.pending, hcall]
      rfl
    refine ⟨done, ?_, howes⟩
    rw [injectedBytes_concat, hdone, hnone, Site.pending_of rfl hat, List.append_nil]
    rfl

/-- The loop's call makes a step. -/
theorem SiteInv.advance (h : SiteInv data tr s) {remaining : List UInt8} {i : Nat} {ch : Choice}
    {t : Sys} (hloop : s.loop = .offers remaining) (hcall : s.call = some i)
    (hreach : remaining.length ≤ ch.reach) (ht : s.sys.step (.step i ch) = some t) :
    SiteInv data (tr ++ [⟨s, .advance ch, { s with sys := t }⟩]) { s with sys := t } := by
  obtain ⟨done, hdone, howes⟩ := h.bytes
  obtain ⟨r, ctl, hr, hc, hhonest⟩ := h.own i hcall
  cases hloop.symm.trans hr
  rw [hloop] at howes
  rcases Kernel.Sys.step_cases ht with ⟨op, hop, -⟩ | ⟨j, ch', c, e, hl, hget, hm, rfl⟩
  · cases hop
  cases hl
  have hcc := (Kernel.Sys.callAt_of hget).symm.trans hc
  simp only [Option.some.injEq] at hcc
  rw [hcc] at hm
  obtain ⟨ctl', hctl, hhonest', hwritten⟩ := own_move howes.1 hreach hhonest hm
  have hat : (s.sys.after i e).callAt i = some e.ctl := by
    rw [Kernel.Sys.callAt_after hget, if_pos rfl]
  refine ⟨?_, ⟨done, ?_, by rw [hloop]; exact howes⟩, h.progress⟩
  · intro j hj
    cases hcall.symm.trans hj
    exact ⟨remaining, ctl', hloop, hat.trans (by rw [hctl]), hhonest'⟩
  · have hinjected : s.injected (.advance ch)
        = Call.accepts s.sys.dev ch (.write ⟨remaining, false⟩ ctl) := by
      simp [Site.injected, Site.entered, hcall, acceptedBy, hc]
    rw [injectedBytes_concat, hinjected, hdone, Site.pending_of hcall hc,
      Site.pending_of (s := { s with sys := s.sys.after i e }) hcall hat, hwritten,
      List.append_assoc]

/-- The loop takes over exactly what its call put in. -/
theorem SiteInv.handle (h : SiteInv data tr s) {remaining : List UInt8} {i : Nat} {a : WriteArgs}
    {ret : Int} (hloop : s.loop = .offers remaining) (hcall : s.call = some i)
    (hc : s.sys.callAt i = some (.write a (.returned ret))) :
    SiteInv data
      (tr ++ [⟨s, .handle, { s with loop := .next true remaining (osWrite ret), call := none }⟩])
      { s with loop := .next true remaining (osWrite ret), call := none } := by
  obtain ⟨done, hdone, howes⟩ := h.bytes
  obtain ⟨r, ctl, hr, hc', hhonest⟩ := h.own i hcall
  cases hloop.symm.trans hr
  cases hc.symm.trans hc'
  rw [hloop] at howes
  have hchunk : (osWrite ret).chunk remaining
      = written (.write ⟨remaining, false⟩ (.returned ret)) ∧ osWrite ret ≠ .wrote 0 := by
    show _ = remaining.take ret.toNat ∧ _
    rcases hhonest ret rfl with hneg | ⟨n, hn, -, rfl⟩
    · rw [Int.toNat_of_nonpos hneg.le, List.take_zero]
      unfold osWrite
      by_cases hint : ret = -Kernel.EINTR ∨ ret = -Kernel.ERESTARTSYS
      · rw [if_pos hint]
        exact ⟨rfl, by simp⟩
      · rw [if_neg hint, if_pos hneg]
        exact ⟨rfl, by simp⟩
    · have hout : osWrite n = .wrote n := by
        unfold osWrite
        rw [if_neg, if_neg (by omega), Int.toNat_natCast]
        simp only [Kernel.EINTR, Kernel.ERESTARTSYS]
        omega
      rw [hout]
      refine ⟨rfl, ?_⟩
      simpa using hn
  refine ⟨by simp, ⟨done ++ (osWrite ret).chunk remaining, ?_, ?_⟩, ?_⟩
  · rw [injectedBytes_concat, hdone, Site.pending_of hcall hc, hchunk.1]
    rfl
  · exact WriteLoop.owes_next howes.1 howes.2 true (osWrite ret)
  · show WriteLoop.next true remaining (osWrite ret) ≠ _
    cases hout : osWrite ret with
    | interrupted => exact WriteLoop.enter_ne_noProgress remaining
    | wrote count =>
      have hcount : count ≠ 0 := by
        intro h0
        rw [h0] at hout
        exact hchunk.2 hout
      rw [WriteLoop.next, if_neg hcount]
      exact WriteLoop.enter_ne_noProgress _
    | failed errno => simp [WriteLoop.next]

end Steps

theorem siteInv_of_run {data : List UInt8} {tr : List (Move Site SiteLabel)} {s : Site}
    (h : (site data).Run tr s) : SiteInv data tr s := by
  refine h.induct ?_ ?_
  · intro s hs
    obtain ⟨-, hloop, hcall⟩ := hs
    refine ⟨by simp [hcall], ⟨[], ?_, ?_⟩, ?_⟩
    · rw [Site.pending, hcall]
      rfl
    · rw [hloop]
      exact WriteLoop.owes_enter (List.nil_append data) true
    · rw [hloop]
      exact WriteLoop.enter_ne_noProgress data
  · intro tr s l s' _ ih hl
    cases Site.step_move hl with
    | invoke => exact ih.invoke _
    | other hne ht => exact ih.other hne ht
    | issue hloop hcall => exact ih.issue hloop hcall
    | advance hloop hcall hreach ht => exact ih.advance hloop hcall hreach ht
    | handle hloop hcall hc => exact ih.handle hloop hcall hc

theorem accepts_of_not_write {c : Call} (h : isWrite c = false) (d : Device) (ch : Choice) :
    c.accepts d ch = [] := by
  cases c with
  | write => cases h
  | _ => rfl

/-- With no other writer, what enters is what the loop's calls put in. -/
theorem enteredBytes_eq {tr : List (Move Site SiteLabel)} (h : NoOtherWriter tr) :
    enteredBytes tr = injectedBytes tr := by
  unfold enteredBytes injectedBytes
  apply List.flatMap_congr
  intro m hm
  have hother := h m hm
  cases hl : m.label with
  | other i ch =>
    rw [hl] at hother
    show acceptedBy m.pre.sys i ch = []
    unfold acceptedBy
    cases hc : m.pre.sys.callAt i with
    | none => rfl
    | some c =>
      rw [Site.otherWrites, hc] at hother
      exact accepts_of_not_write hother _ _
  | _ => rfl

/-- What the loop on the device comes to. -/
structure InjectedOnce (data : List UInt8) (tr : List (Move Site SiteLabel)) (s : Site) : Prop where
  progress : s.loop ≠ .raised .noProgress
  entered : NoOtherWriter tr → s.loop = .returned → enteredBytes tr = data

/-- One byte more than the FIFO takes. The first call is interrupted, the
second fills the FIFO, and a reader makes room for the third. -/
def overfull : List SiteLabel := List.flatten [
  [.issue], List.replicate 5 (.advance { reach := 4097 }),
  [.advance { signal := true, reach := 4097 }, .advance { reach := 4097 }, .handle],
  [.issue], List.replicate 8 (.advance { reach := 4097 }), [.handle],
  [.invoke (.read ⟨1, false⟩)], List.replicate 5 (.other 2 { reach := 1 }),
  [.issue], List.replicate 8 (.advance { reach := 4097 }), [.handle]]

end VDevLab.Runner
