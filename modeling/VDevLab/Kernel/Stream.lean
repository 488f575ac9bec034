import VDevLab.Kernel.Calls

/-!
# The FIFO is a stream

Over every interleaving the bytes that writes put in since the last reset
are the bytes that reads took out since then, followed by what is queued.
The order on both sides is the order of the critical sections.

The numbers the calls return belong to this picture only while no user copy
fails on its first byte: such a copy moves nothing and is reported as
`2^32 - EFAULT` bytes.
-/

namespace VDevLab.Kernel

/-! ## Bytes moved by a step -/

/-- The bytes a step of the call puts into the FIFO. -/
def Call.accepts (d : Device) (ch : Choice) : Call → List UInt8
  | .write a (.run .lock) =>
      if ch.signal || kfifoIsFull d then []
      else a.data.take (userCopy (writeToCopy a d) ch.reach).copied
  | _ => []

/-- The bytes a step of the call takes out of the FIFO. -/
def Call.delivers (d : Device) (ch : Choice) : Call → List UInt8
  | .read a (.run (.lock l)) =>
      if ch.signal || kfifoIsEmpty d then []
      else d.fifo.take (userCopy (readToCopy a d l) ch.reach).copied
  | _ => []

/-- The step of the call is a user copy. -/
def Call.copies (d : Device) (ch : Choice) : Call → Bool
  | .read _ (.run (.lock _)) => !ch.signal && !kfifoIsEmpty d
  | .write _ (.run .lock) => !ch.signal && !kfifoIsFull d
  | _ => false

/-- The next step of the call is the critical section of `RESET`. -/
def Call.resets : Call → Bool
  | .ioctl .reset (.run .start) => true
  | _ => false

/-- What went in and what came out since the last reset. -/
structure Streams where
  accepted : List UInt8
  delivered : List UInt8

def Streams.after (t : Streams) (m : Move Sys Label) : Streams :=
  match m.label with
  | .invoke _ => t
  | .step i ch =>
      match m.pre.callers[i]? with
      | none => t
      | some c =>
          if c.call.resets then ⟨[], []⟩
          else ⟨t.accepted ++ c.call.accepts m.pre.dev ch,
            t.delivered ++ c.call.delivers m.pre.dev ch⟩

def streams (tr : List (Move Sys Label)) : Streams := tr.foldl Streams.after ⟨[], []⟩

/-! ## What a call has to report -/

/-- The result a read is committed to, from its dequeue on. -/
def Call.readResult : Call → Option ReadResult
  | .read _ (.run (.wake res)) => some res
  | .read _ (.exit res) => some res
  | .read _ (.returned res) => some res
  | _ => none

/-- The bytes of that result. -/
def Call.readBytes (c : Call) : List UInt8 := (c.readResult.map (·.bytes)).getD []

/-- The result a write is committed to, from its enqueue on. -/
def Call.writeResult : Call → Option Int
  | .write _ (.run (.wake ret)) => some ret
  | .write _ (.exit ret) => some ret
  | .write _ (.returned ret) => some ret
  | _ => none

/-- The calls that may not touch the FIFO: the failed reads and writes, the
polls, and every control call but `RESET`. -/
def Call.KeepsFifo (c : Call) : Prop :=
  match c with
  | .read _ _ => ∃ res, c.readResult = some res ∧ res.ret < 0
  | .write _ _ => ∃ ret, c.writeResult = some ret ∧ ret < 0
  | .poll _ _ => True
  | .ioctl cmd _ => cmd ≠ .reset

/-! ## One move -/

/-- A step takes what it delivers off the front and puts what it accepts on
the back, unless it is the reset. -/
theorem CallMove.fifo {d : Device} {ch : Choice} {woken : Bool} {c : Call} {e : Effect Call}
    (h : CallMove d ch woken c e) :
    (c.resets = true ∧ e.dev.fifo = []) ∨
    (c.resets = false ∧ d.fifo ++ c.accepts d ch = c.delivers d ch ++ e.dev.fifo) := by
  cases h with
  | read hm =>
    refine .inr ⟨rfl, ?_⟩
    cases hm <;> simp_all [Call.accepts, Call.delivers, Effect.map, Device.sampled, readDequeue]
  | write hm =>
    refine .inr ⟨rfl, ?_⟩
    cases hm <;> simp_all [Call.accepts, Call.delivers, Effect.map, writeEnqueue]
  | poll hm =>
    refine .inr ⟨rfl, ?_⟩
    cases hm <;> simp [Call.accepts, Call.delivers, Effect.map]
  | ioctl hm => cases hm <;> simp_all [Call.accepts, Call.delivers, Effect.map, Call.resets]
  | _ => simp [Call.accepts, Call.delivers, Call.resets]

/-- The bytes a read took out are what it will report. -/
theorem CallMove.delivers_result {d : Device} {ch : Choice} {woken : Bool} {c : Call}
    {e : Effect Call} (h : CallMove d ch woken c e) (hne : c.delivers d ch ≠ []) :
    e.ctl.readResult = some ⟨(c.delivers d ch).length, c.delivers d ch⟩ := by
  cases h with
  | @read a pc e hm =>
    cases hm with
    | @dequeue l u hs he hcopy hmoved =>
      subst hcopy
      have hdel : (Call.read a (.run (.lock l))).delivers d ch
          = d.fifo.take (userCopy (readToCopy a d l) ch.reach).copied := by
        simp [Call.delivers, hs, he]
      simp only [hdel, readDequeue_length, Effect.map, Call.readResult, readDequeue,
        copyResult_moved hmoved]
    | copyFault hs he hcopy hmoved => simp_all [Call.delivers]
    | lockInterrupted => simp_all [Call.delivers]
    | again => simp_all [Call.delivers]
    | block => simp_all [Call.delivers]
    | _ => exact absurd rfl hne
  | _ => exact absurd rfl hne

/-- Whatever a read took out is in its result. -/
theorem CallMove.readBytes {d : Device} {ch : Choice} {woken : Bool} {c : Call} {e : Effect Call}
    (h : CallMove d ch woken c e) : e.ctl.readBytes = c.readBytes ++ c.delivers d ch := by
  cases h with
  | read hm =>
    cases hm <;> simp_all [Call.readBytes, Call.readResult, Call.delivers, Effect.map, readDequeue,
      ReadResult.error]
  | readReturn => simp [Call.readBytes, Call.readResult, Call.delivers]
  | _ => rfl

/-- The bytes a write put in are the prefix of its data that it will report. -/
theorem CallMove.accepts_result {d : Device} {ch : Choice} {woken : Bool} {c : Call}
    {e : Effect Call} (h : CallMove d ch woken c e) (hne : c.accepts d ch ≠ []) :
    e.ctl.writeResult = some ((c.accepts d ch).length : Int) := by
  cases h with
  | @write a pc e hm =>
    cases hm with
    | @enqueue u hs hf hcopy hmoved =>
      subst hcopy
      have hacc : (Call.write a (.run .lock)).accepts d ch
          = a.data.take (userCopy (writeToCopy a d) ch.reach).copied := by
        simp [Call.accepts, hs, hf]
      have hle : (userCopy (writeToCopy a d) ch.reach).copied ≤ a.data.length :=
        (userCopy_copied_le _ _).trans (Nat.min_le_left _ _)
      simp only [hacc, List.length_take, Nat.min_eq_left hle, Effect.map, Call.writeResult,
        copyResult_moved hmoved]
    | copyFault hs hf hcopy hmoved => simp_all [Call.accepts]
    | lockInterrupted => simp_all [Call.accepts]
    | lockedAgain => simp_all [Call.accepts]
    | lockedRestart => simp_all [Call.accepts]
    | _ => exact absurd rfl hne
  | _ => exact absurd rfl hne

theorem CallMove.readResult_persists {d : Device} {ch : Choice} {woken : Bool} {c : Call}
    {e : Effect Call} (h : CallMove d ch woken c e) {res : ReadResult}
    (hc : c.readResult = some res) : e.ctl.readResult = some res := by
  cases h with
  | read hm => cases hm <;> simp_all [Call.readResult, Effect.map]
  | readReturn => exact hc
  | _ => cases hc

theorem CallMove.writeResult_persists {d : Device} {ch : Choice} {woken : Bool} {c : Call}
    {e : Effect Call} (h : CallMove d ch woken c e) {ret : Int}
    (hc : c.writeResult = some ret) : e.ctl.writeResult = some ret := by
  cases h with
  | write hm => cases hm <;> simp_all [Call.writeResult, Effect.map]
  | writeReturn => exact hc
  | _ => cases hc

/-! ## Runs -/

theorem streams_snoc (tr : List (Move Sys Label)) (m : Move Sys Label) :
    streams (tr ++ [m]) = (streams tr).after m := by
  simp [streams]

/-- In equals out followed by queued. -/
theorem streams_conserved {tr : List (Move Sys Label)} {s : Sys} (h : machine.Run tr s) :
    (streams tr).accepted = (streams tr).delivered ++ s.dev.fifo := by
  refine h.induct (P := fun tr s => (streams tr).accepted = (streams tr).delivered ++ s.dev.fifo)
    (by rintro s rfl; rfl) ?_
  intro tr s l t _ ih hl
  rw [streams_snoc]
  rcases Sys.step_cases hl with ⟨op, rfl, rfl⟩ | ⟨i, ch, c, e, rfl, hc, hm, rfl⟩
  · exact ih
  · simp only [Streams.after, hc]
    rcases hm.fifo with ⟨hr, he⟩ | ⟨hr, he⟩
    · rw [if_pos hr]
      exact he.symm
    · rw [if_neg (by rw [hr]; decide)]
      show _ = _ ++ e.dev.fifo
      rw [ih, List.append_assoc, he, List.append_assoc]

/-- A read or write of a positive length that reports no error reports
between one byte and what was asked for. -/
def Call.InRange (c : Call) : Prop :=
  match c with
  | .read a _ => ∀ res, c.readResult = some res → a.count ≠ 0 → 0 ≤ res.ret →
      1 ≤ res.ret ∧ res.ret ≤ a.count
  | .write a _ => ∀ ret, c.writeResult = some ret → a.data ≠ [] → 0 ≤ ret →
      1 ≤ ret ∧ ret ≤ a.data.length
  | _ => True

/-- If the move makes a user copy, the buffer is accessible at its first
byte. -/
def copyReaches (m : Move Sys Label) : Bool :=
  match m.label with
  | .invoke _ => true
  | .step i ch =>
      match m.pre.callers[i]? with
      | none => true
      | some c => !c.call.copies m.pre.dev ch || ch.reach != 0

/-- Everything the stream picture says about a run that reached `s`. -/
structure FifoIntegrity (tr : List (Move Sys Label)) (s : Sys) : Prop where
  /-- Bytes in = bytes out, then bytes queued, since the last reset. -/
  stream : (streams tr).accepted = (streams tr).delivered ++ s.dev.fifo
  bound : s.dev.fifo.length ≤ fifoSize
  /-- Bytes come out only in a read that reports exactly them. -/
  delivered : ∀ m ∈ tr, ∀ i ch c, m.label = .step i ch → m.pre.callers[i]? = some c →
    c.call.delivers m.pre.dev ch ≠ [] → ∃ c', s.callers[i]? = some c' ∧
      c'.call.readResult = some ⟨(c.call.delivers m.pre.dev ch).length, c.call.delivers m.pre.dev ch⟩
  /-- Bytes go in only in a write that reports exactly that many. -/
  accepted : ∀ m ∈ tr, ∀ i ch c, m.label = .step i ch → m.pre.callers[i]? = some c →
    c.call.accepts m.pre.dev ch ≠ [] → ∃ c', s.callers[i]? = some c' ∧
      c'.call.writeResult = some ((c.call.accepts m.pre.dev ch).length : Int)
  inRange : ∀ c ∈ s.callers, c.call.InRange
  /-- Failed reads and writes, polls and the other control calls leave the
  FIFO as it is in every one of their steps. -/
  unchanged : ∀ m ∈ tr, ∀ i ch c, m.label = .step i ch → s.callers[i]? = some c →
    c.call.KeepsFifo → m.post.dev.fifo = m.pre.dev.fifo

theorem userCopy_reached {len reach : Nat} (hlen : len ≠ 0)
    (h : (userCopy len reach).copied = 0) : reach = 0 := by
  simp only [userCopy] at h
  omega

/-- Where the result of a read comes from: it was settled before, it is an
error, it is the number of bytes just moved, or the copy failed at once. -/
theorem ReadMove.result_cases {a : ReadArgs} {d : Device} {ch : Choice} {woken : Bool}
    {pc : ReadPc} {e : Effect (Ctl ReadPc ReadResult)} (h : ReadMove a d ch woken pc e)
    (hwf : a.Wf (.run pc)) {res : ReadResult} (hres : (Call.read a e.ctl).readResult = some res)
    (hcount : a.count ≠ 0) :
    (Call.read a (.run pc)).readResult = some res ∨ res.ret < 0 ∨
    (1 ≤ res.ret ∧ res.ret ≤ a.count) ∨
    ((Call.read a (.run pc)).copies d ch = true ∧ ch.reach = 0) := by
  have hwf' := h.wf hwf
  cases h with
  | zero h0 => exact absurd h0 hcount
  | sampleFail hs hd hr =>
    subst hs
    cases hres
    exact .inr (.inl ((applyReadFault_ret _ _).1 hr))
  | delayInterrupted => cases hres; exact .inr (.inl (by decide))
  | delayFail hr => exact absurd hwf.2 hr
  | lockInterrupted => cases hres; exact .inr (.inl (by decide))
  | again => cases hres; exact .inr (.inl (by decide))
  | dequeue =>
    obtain ⟨bytes, hne, hle, heq⟩ := hwf'
    cases hres
    -- the value behind `wake` is the length of what was dequeued
    rw [heq]
    have : bytes.length ≠ 0 := by simpa using hne
    exact .inr (.inr (.inl ⟨by show (1 : Int) ≤ bytes.length; omega,
      by show (bytes.length : Int) ≤ _; omega⟩))
  | copyFault hs he hcopy hmoved =>
    subst hcopy
    exact .inr (.inr (.inr ⟨by simp [Call.copies, hs, he],
      userCopy_reached (readToCopy_ne_zero _ hcount he) hmoved⟩))
  | waitInterrupted => cases hres; exact .inr (.inl (by decide))
  | wake => exact .inl hres
  | _ => cases hres

theorem WriteMove.result_cases {a : WriteArgs} {d : Device} {ch : Choice} {woken : Bool}
    {pc : WritePc} {e : Effect (Ctl WritePc Int)} (h : WriteMove a d ch woken pc e)
    (hwf : a.Wf (.run pc)) {ret : Int} (hret : (Call.write a e.ctl).writeResult = some ret)
    (hdata : a.data ≠ []) :
    (Call.write a (.run pc)).writeResult = some ret ∨ ret < 0 ∨
    (1 ≤ ret ∧ ret ≤ a.data.length) ∨
    ((Call.write a (.run pc)).copies d ch = true ∧ ch.reach = 0) := by
  have hwf' := h.wf hwf
  cases h with
  | zero h0 => exact absurd h0 hdata
  | gone => cases hret; exact .inr (.inl (by decide))
  | again => cases hret; exact .inr (.inl (by decide))
  | waitInterrupted => cases hret; exact .inr (.inl (by decide))
  | lockInterrupted => cases hret; exact .inr (.inl (by decide))
  | lockedAgain => cases hret; exact .inr (.inl (by decide))
  | enqueue =>
    obtain ⟨n, hne, hle, heq⟩ := hwf'
    cases hret
    rw [heq]
    exact .inr (.inr (.inl ⟨by omega, by omega⟩))
  | copyFault hs hf hcopy hmoved =>
    subst hcopy
    exact .inr (.inr (.inr ⟨by simp [Call.copies, hs, hf],
      userCopy_reached (writeToCopy_ne_zero hdata hf) hmoved⟩))
  | wake => exact .inl hret
  | _ => cases hret

/-- While copies reach their first byte, results stay in range. -/
theorem CallMove.inRange {d : Device} {ch : Choice} {woken : Bool} {c : Call} {e : Effect Call}
    (h : CallMove d ch woken c e) (hwf : c.Wf) (hc : c.InRange)
    (hreach : c.copies d ch = true → ch.reach ≠ 0) : e.ctl.InRange := by
  cases h with
  | read hm =>
    intro res hres hcount hpos
    rcases hm.result_cases hwf hres hcount with hold | hneg | hrange | ⟨hcopies, h0⟩
    · exact hc res hold hcount hpos
    · exact absurd hpos (not_le.mpr hneg)
    · exact hrange
    · exact absurd h0 (hreach hcopies)
  | write hm =>
    intro ret hret hdata hpos
    rcases hm.result_cases hwf hret hdata with hold | hneg | hrange | ⟨hcopies, h0⟩
    · exact hc ret hold hdata hpos
    · exact absurd hpos (not_le.mpr hneg)
    · exact hrange
    · exact absurd h0 (hreach hcopies)
  | readReturn => exact hc
  | writeReturn => exact hc
  | _ => trivial

theorem Op.inRange (op : Op) : op.call.InRange := by
  cases op with
  | read a => intro res hres; cases hres
  | write a => intro ret hret; cases hret
  | _ => trivial

/-- In a run whose copies all reach their first byte, every result is in
range. -/
theorem results_inRange {tr : List (Move Sys Label)} {s : Sys} (h : machine.Run tr s)
    (hreach : ∀ m ∈ tr, copyReaches m = true) : ∀ c ∈ s.callers, c.call.InRange := by
  -- on the run: the condition on copies is inherited by the shorter history
  induction h with
  | start hs =>
    cases hs
    intro c hc
    cases hc
  | @snoc tr s l t hr hl ih =>
    have ih := ih (fun m hm => hreach m (List.mem_append_left _ hm))
    have hlast : copyReaches ⟨s, l, t⟩ = true := hreach _ (by simp)
    intro c hc
    rcases Sys.step_cases hl with ⟨op, rfl, rfl⟩ | ⟨i, ch, b, e, rfl, hb, hm, rfl⟩
    · rcases List.mem_append.mp hc with hc | hc
      · exact ih c hc
      · cases List.mem_singleton.mp hc
        exact op.inRange
    · have hmem := List.mem_of_getElem? hb
      rcases Sys.mem_after hc with heq | ⟨c', hc', heq⟩ <;> rw [heq]
      · refine hm.inRange ((machine_inv hr).calls b hmem) (ih b hmem) (fun hcopies => ?_)
        simpa [copyReaches, hb, hcopies] using hlast
      · exact ih c' hc'

/-- The call moved bytes and will report how many, or it is the reset. -/
def Call.MovedFifo (c : Call) : Prop :=
  (∃ n : Nat, (∃ bytes, c.readResult = some ⟨n, bytes⟩) ∨ c.writeResult = some (n : Int)) ∨
    ∃ ctl, c = .ioctl .reset ctl

/-- A step that changes the FIFO leaves a call that may. -/
theorem CallMove.movedFifo {d : Device} {ch : Choice} {woken : Bool} {c : Call}
    {e : Effect Call} (h : CallMove d ch woken c e) (hne : e.dev.fifo ≠ d.fifo) :
    e.ctl.MovedFifo := by
  cases h.device with
  | same he => exact absurd (by rw [he]) hne
  | sample he => exact absurd (by rw [he]; rfl) hne
  | @dequeue _ _ _ n => exact .inl ⟨n, .inl ⟨_, rfl⟩⟩
  | @enqueue _ _ n => exact .inl ⟨n, .inr rfl⟩
  | control hpc =>
    rcases hpc with ⟨-, rfl⟩ | ⟨-, -, -, rfl⟩ | ⟨-, rfl, -⟩
    · exact absurd rfl hne
    · exact absurd rfl hne
    · exact .inr ⟨_, rfl⟩

theorem CallMove.movedFifo_persists {d : Device} {ch : Choice} {woken : Bool} {c : Call}
    {e : Effect Call} (h : CallMove d ch woken c e) (hc : c.MovedFifo) : e.ctl.MovedFifo := by
  rcases hc with ⟨n, ⟨bytes, hr⟩ | hw⟩ | ⟨ctl, rfl⟩
  · exact .inl ⟨n, .inl ⟨bytes, h.readResult_persists hr⟩⟩
  · exact .inl ⟨n, .inr (h.writeResult_persists hw)⟩
  · cases h with
    | ioctl hm => exact .inr ⟨_, rfl⟩
    | ioctlReturn => exact .inr ⟨_, rfl⟩

theorem Call.KeepsFifo.not_moved {c : Call} (hk : c.KeepsFifo) : ¬ c.MovedFifo := by
  intro h
  rcases h with ⟨n, ⟨bytes, hr⟩ | hw⟩ | ⟨ctl, rfl⟩
  · cases c with
    | read a ctl =>
      obtain ⟨res, hres, hneg⟩ := hk
      cases hr.symm.trans hres
      exact absurd hneg (not_lt.mpr (Int.natCast_nonneg n))
    | _ => cases hr
  · cases c with
    | write a ctl =>
      obtain ⟨ret, hret, hneg⟩ := hk
      cases hw.symm.trans hret
      exact absurd hneg (not_lt.mpr (Int.natCast_nonneg n))
    | _ => cases hw
  · exact hk rfl

/-- A write of one byte that is not awaited, up to its wake-up. -/
def oneByteWritten : List Label :=
  [.invoke (.write ⟨[52], false⟩), .step 0 {}, .step 0 {}, .step 0 {}, .step 0 {}, .step 0 {},
    .step 0 { reach := 1 }]

end VDevLab.Kernel
