import VDevLab.Kernel.Stream

/-!
# `poll` predicts `read` and `write`

Three code paths look at the fault record and at the FIFO on their own:
`vdevlab_poll`, the fault check of `vdevlab_read` and the tests at the head of
`vdevlab_write`. When nothing else moves, the mask of the first says what the
other two return without blocking.

A signal that comes while a call sleeps or takes a mutex is not predicted. It
replaces bytes or `-EAGAIN` by the error of an interrupted call, never one of
the two device errors.
-/

namespace VDevLab.Kernel

/-! ## An operation on its own -/

/-- The operation is issued in `s`, and only its own steps are taken, under
the given choices. -/
inductive Alone (s : Sys) (op : Op) : List Choice → Sys → Prop
  | issued : Alone s op [] (s.invoked op)
  | step {chs t ch u} : Alone s op chs t → t.step (.step s.callers.length ch) = some u →
      Alone s op (chs ++ [ch]) u

/-- A property of the operation and of the device holds as long as each of its
steps keeps it. -/
theorem Alone.induct {s : Sys} {op : Op} {Q : List Choice → Device → Call → Prop}
    (hstart : Q [] s.dev op.call)
    (hstep : ∀ chs d ch woken c e, CallMove d ch woken c e → Q chs d c →
      Q (chs ++ [ch]) e.dev e.ctl)
    {chs : List Choice} {t : Sys} (h : Alone s op chs t) :
    ∃ c, t.callAt s.callers.length = some c ∧ Q chs t.dev c := by
  induction h with
  | issued =>
    refine ⟨op.call, ?_, hstart⟩
    rw [Sys.callAt_invoked, if_pos rfl]
  | @step chs t ch u _ hl ih =>
    obtain ⟨c₀, hat, hQ⟩ := ih
    rcases Sys.step_cases hl with ⟨op', hop, -⟩ | ⟨i, ch', c, e, hi, hc, hm, rfl⟩
    · cases hop
    · cases hi
      have hcall : c.call = c₀ := Option.some.inj ((Sys.callAt_of hc).symm.trans hat)
      refine ⟨e.ctl, by rw [Sys.callAt_after hc, if_pos rfl], ?_⟩
      rw [← hcall] at hQ
      exact hstep _ _ _ _ _ _ hm hQ

/-- A signal came with one of the steps. -/
def signalled (chs : List Choice) : Prop := ∃ ch ∈ chs, ch.signal = true

theorem signalled.concat {chs : List Choice} (h : signalled chs) (ch : Choice) :
    signalled (chs ++ [ch]) := by
  obtain ⟨ch', hmem, hsignal⟩ := h
  exact ⟨ch', List.mem_append_left _ hmem, hsignal⟩

theorem signalled_last (chs : List Choice) {ch : Choice} (h : ch.signal = true) :
    signalled (chs ++ [ch]) :=
  ⟨ch, by simp, h⟩

/-! ## The mask -/

/-- The mask has one of these bits. -/
def Has (mask bits : PollMask) : Prop := mask &&& bits ≠ 0

instance (mask bits : PollMask) : Decidable (Has mask bits) := inferInstanceAs (Decidable (_ ≠ _))

theorem pollMask_disconnect {d : Device} (h : d.fault.type = faultDisconnect) :
    pollMask d = EPOLLERR ||| EPOLLHUP := by
  simp [pollMask, pollFaultMask, h]

theorem pollMask_eio {d : Device} (h : d.fault.type = faultEio) : pollMask d = EPOLLERR := by
  simp +decide [pollMask, pollFaultMask, h]

theorem pollMask_fifo {d : Device} (h : faultInterruptsRead d.fault = false) :
    pollMask d = pollFifoMask d := by
  simp only [faultInterruptsRead, Bool.or_eq_false_iff, decide_eq_false_iff_not] at h
  simp [pollMask, pollFaultMask, h.1, h.2]

/-- The four masks of a device without an error fault. -/
theorem pollFifoMask_spec (d : Device) :
    ¬ Has (pollFifoMask d) EPOLLHUP ∧ ¬ Has (pollFifoMask d) EPOLLERR ∧
    (Has (pollFifoMask d) EPOLLIN ↔ kfifoIsEmpty d = false) ∧
    (Has (pollFifoMask d) EPOLLOUT ↔ kfifoIsFull d = false) := by
  unfold pollFifoMask
  cases kfifoIsEmpty d <;> cases kfifoIsFull d <;> decide

/-! ## Poll -/

/-- `poll(2)` on its own: what its two samples of the device have in hand. -/
def PollAlone (d now : Device) : Ctl PollPc PollResult → Prop
  | .run (.sampleFifo _) => now = d ∧ pollFaultMask d.fault = none
  | .run (.decide _ mask) => now = d ∧ mask = pollMask d
  | _ => now = d

theorem PollMove.alone {events : PollMask} {d now : Device} {ch : Choice} {woken : Bool}
    {pc : PollPc} {e : Effect (Ctl PollPc PollResult)} (h : PollMove events now ch woken pc e)
    (hs : PollAlone d now (.run pc)) : PollAlone d e.dev e.ctl := by
  cases h with
  | registerRead => exact hs
  | registerWrite => exact hs
  | faultMask hmask =>
    cases hs
    refine ⟨rfl, ?_⟩
    rw [pollMask, hmask]
    rfl
  | noFaultMask hmask =>
    cases hs
    exact ⟨rfl, hmask⟩
  | fifoMask =>
    obtain ⟨rfl, hnone⟩ := hs
    refine ⟨rfl, ?_⟩
    rw [pollMask, hnone]
    rfl
  | hit => exact hs.1
  | timeout => exact hs.1
  | interrupted => exact hs.1
  | sleep => exact hs.1
  | resume => exact hs

/-! ## Read -/

/-- What a read that does not block can return on the device `d`. -/
inductive ReadVerdict (d : Device) (chs : List Choice) : ReadResult → Prop
  | gone : d.fault.type = faultDisconnect → ReadVerdict d chs (.error ENODEV)
  | failed : d.fault.type = faultEio → ReadVerdict d chs (.error EIO)
  | interrupted {e} : faultInterruptsRead d.fault = false → signalled chs →
      (e = EINTR ∨ e = ERESTARTSYS) → ReadVerdict d chs (.error e)
  | again : faultInterruptsRead d.fault = false → kfifoIsEmpty d = true →
      ReadVerdict d chs (.error EAGAIN)
  | moved {bytes} : faultInterruptsRead d.fault = false → kfifoIsEmpty d = false → bytes ≠ [] →
      ReadVerdict d chs ⟨bytes.length, bytes⟩

theorem ReadVerdict.concat {d : Device} {chs : List Choice} {res : ReadResult}
    (h : ReadVerdict d chs res) (ch : Choice) : ReadVerdict d (chs ++ [ch]) res := by
  cases h with
  | gone ht => exact .gone ht
  | failed ht => exact .failed ht
  | interrupted hf hsig he => exact .interrupted hf (hsig.concat ch) he
  | again hf he => exact .again hf he
  | moved hf he hb => exact .moved hf he hb

/-- Where a non-blocking read stands that found the device as `d`. It never
comes to the wait queue. -/
def ReadAlone (d : Device) (chs : List Choice) (now : Device) : Ctl ReadPc ReadResult → Prop
  | .run .start => chs.length = 0 ∧ now = d
  | .run (.fault l) => chs.length = 1 ∧ now = d ∧ l = ⟨false, 0⟩
  | .run (.delay _ ret _) =>
      chs.length = 2 ∧ now = d ∧ ret = 0 ∧ faultInterruptsRead d.fault = false
  | .run (.lock _) => chs.length ≤ 3 ∧ now = d ∧ faultInterruptsRead d.fault = false
  | .run (.wake res) => chs.length ≤ 4 ∧ ReadVerdict d chs res
  | .exit res => chs.length ≤ 5 ∧ ReadVerdict d chs res
  | .returned res => chs.length ≤ 6 ∧ ReadVerdict d chs res
  | _ => False

/-- The first check of a read, by the kind of the fault. -/
theorem firstCheck_cases {fault : FaultConfig} (h : Canonical fault) :
    (fault.type = faultDisconnect ∧
      applyReadFault fault ⟨false, 0⟩ = ⟨fault, ⟨false, 0⟩, 0, -ENODEV⟩) ∨
    (fault.type = faultEio ∧ (applyReadFault fault ⟨false, 0⟩).delayMs = 0 ∧
      (applyReadFault fault ⟨false, 0⟩).ret = - EIO) ∨
    (faultInterruptsRead fault = false ∧ (applyReadFault fault ⟨false, 0⟩).fault = fault ∧
      (applyReadFault fault ⟨false, 0⟩).ret = 0) := by
  cases h with
  | none => exact .inr (.inr ⟨rfl, rfl, rfl⟩)
  | eio hpos =>
    refine .inr (.inl ⟨rfl, ?_, ?_⟩)
    · simp +decide [applyReadFault, hpos]
    · simp +decide [applyReadFault, hpos]
  | delay => exact .inr (.inr ⟨rfl, rfl, rfl⟩)
  | disconnect => exact .inl ⟨rfl, rfl⟩
  | partialRead => exact .inr (.inr ⟨rfl, rfl, rfl⟩)

theorem ReadMove.alone {a : ReadArgs} {d now : Device} {ch : Choice} {woken : Bool} {pc : ReadPc}
    {e : Effect (Ctl ReadPc ReadResult)} (h : ReadMove a now ch woken pc e) (ha : a.count ≠ 0)
    (hn : a.nonblock = true) (hd : Canonical d.fault) (hreach : a.count ≤ ch.reach)
    {chs : List Choice} (hs : ReadAlone d chs now (.run pc)) :
    ReadAlone d (chs ++ [ch]) e.dev e.ctl := by
  have hlen : (chs ++ [ch]).length = chs.length + 1 := by simp
  cases h with
  | zero h0 => exact absurd h0 ha
  | enter =>
    obtain ⟨h0, rfl⟩ := hs
    exact ⟨by omega, rfl, rfl⟩
  | sampleDelay hsample hdelay =>
    obtain ⟨h1, rfl, rfl⟩ := hs
    subst hsample
    rcases firstCheck_cases hd with ⟨-, hcheck⟩ | ⟨-, hzero, -⟩ | ⟨hf, hsame, hret⟩
    · rw [hcheck] at hdelay
      exact absurd rfl hdelay
    · exact absurd hzero hdelay
    · refine ⟨by omega, ?_, hret, hf⟩
      rw [Device.sampled, hsame]
  | sampleFail hsample _ hret =>
    obtain ⟨h1, rfl, rfl⟩ := hs
    subst hsample
    refine ⟨by omega, ?_⟩
    rcases firstCheck_cases hd with ⟨ht, hcheck⟩ | ⟨ht, -, hcode⟩ | ⟨-, -, hzero⟩
    · rw [hcheck]
      exact .gone ht
    · rw [hcode]
      exact .failed ht
    · exact absurd hzero hret
  | samplePass hsample _ hret =>
    obtain ⟨h1, rfl, rfl⟩ := hs
    subst hsample
    rcases firstCheck_cases hd with ⟨-, hcheck⟩ | ⟨-, -, hcode⟩ | ⟨hf, hsame, -⟩
    · rw [hcheck] at hret
      exact absurd (show -ENODEV = 0 from hret) (by decide)
    · rw [hcode] at hret
      exact absurd hret (by decide)
    · refine ⟨by omega, ?_, hf⟩
      rw [Device.sampled, hsame]
  | delayInterrupted hsignal =>
    obtain ⟨h2, rfl, -, hf⟩ := hs
    exact ⟨by omega, .interrupted hf (signalled_last chs hsignal) (.inr rfl)⟩
  | delayFail hret =>
    obtain ⟨-, -, hzero, -⟩ := hs
    exact absurd hzero hret
  | delayPass =>
    obtain ⟨h2, rfl, -, hf⟩ := hs
    exact ⟨by omega, rfl, hf⟩
  | lockInterrupted hsignal =>
    obtain ⟨h3, rfl, hf⟩ := hs
    exact ⟨by omega, .interrupted hf (signalled_last chs hsignal) (.inl rfl)⟩
  | again _ hempty =>
    obtain ⟨h3, rfl, hf⟩ := hs
    exact ⟨by omega, .again hf hempty⟩
  | block _ _ hblock => cases hn.symm.trans hblock
  | @dequeue l c _ hready hcopy hmoved =>
    obtain ⟨h3, rfl, hf⟩ := hs
    subst hcopy
    have hlength := @readDequeue_length a now l ch.reach
    have hres : (readDequeue now (userCopy (readToCopy a now l) ch.reach)).2 =
        ⟨(now.fifo.take (userCopy (readToCopy a now l) ch.reach).copied).length,
          now.fifo.take (userCopy (readToCopy a now l) ch.reach).copied⟩ := by
      rw [readDequeue, copyResult_moved hmoved, hlength]
    refine ⟨by omega, ?_⟩
    rw [hres]
    refine .moved hf hready ?_
    rw [← List.length_pos_iff, hlength]
    exact Nat.pos_of_ne_zero hmoved
  | @copyFault l c _ hready hcopy hmoved =>
    -- the buffer is there for every byte, so the copy moves some
    subst hcopy
    have hpos := readToCopy_ne_zero l ha hready
    have hzero : min (readToCopy a now l) ch.reach = 0 := hmoved
    omega
  | wake => exact ⟨by have := hs.1; omega, hs.2.concat ch⟩
  | queue => exact hs.elim
  | fifoEmpty => exact hs.elim
  | fifoReady => exact hs.elim
  | faultReady => exact hs.elim
  | waitInterrupted => exact hs.elim
  | sleep => exact hs.elim
  | resume => exact hs.elim

/-- A read that does not block can always take its next step. -/
theorem ReadAlone.enabled {d now : Device} {chs : List Choice} {a : ReadArgs}
    {ctl : Ctl ReadPc ReadResult} (h : ReadAlone d chs now ctl)
    (hrun : ∀ res, ctl ≠ .returned res) (ch : Choice) (woken : Bool) :
    ((Call.read a ctl).step now ch woken).isSome = true := by
  cases ctl with
  | returned res => exact absurd rfl (hrun res)
  | exit res => rfl
  | run pc =>
    simp only [Call.step, Ctl.step, Option.isSome_map]
    cases pc with
    | start =>
      simp only [readStep]
      split <;> rfl
    | fault l =>
      simp only [readStep]
      split
      · rfl
      · split <;> rfl
    | delay ms ret l =>
      simp only [readStep]
      split
      · rfl
      · split <;> rfl
    | lock l =>
      simp only [readStep]
      split
      · rfl
      · split <;> split <;> rfl
    | wake res => rfl
    | _ => exact h.elim

/-! ## Write -/

/-- What a write that does not block can return on the device `d`. -/
inductive WriteVerdict (d : Device) (chs : List Choice) : Int → Prop
  | gone : isDisconnected d.fault = true → WriteVerdict d chs (-ENODEV)
  | interrupted : isDisconnected d.fault = false → signalled chs → WriteVerdict d chs (-EINTR)
  | again : isDisconnected d.fault = false → kfifoIsFull d = true → WriteVerdict d chs (-EAGAIN)
  | moved {n : Nat} : isDisconnected d.fault = false → kfifoIsFull d = false → n ≠ 0 →
      WriteVerdict d chs n

theorem WriteVerdict.concat {d : Device} {chs : List Choice} {ret : Int}
    (h : WriteVerdict d chs ret) (ch : Choice) : WriteVerdict d (chs ++ [ch]) ret := by
  cases h with
  | gone hd => exact .gone hd
  | interrupted hd hsig => exact .interrupted hd (hsig.concat ch)
  | again hd hf => exact .again hd hf
  | moved hd hf hn => exact .moved hd hf hn

def WriteAlone (d : Device) (chs : List Choice) (now : Device) : Ctl WritePc Int → Prop
  | .run .start => chs.length = 0 ∧ now = d
  | .run .top => chs.length = 1 ∧ now = d
  | .run .fullCheck => chs.length = 2 ∧ now = d ∧ isDisconnected d.fault = false
  | .run .lock =>
      chs.length = 3 ∧ now = d ∧ isDisconnected d.fault = false ∧ kfifoIsFull d = false
  | .run (.wake ret) => chs.length = 4 ∧ WriteVerdict d chs ret
  | .exit ret => chs.length ≤ 5 ∧ WriteVerdict d chs ret
  | .returned ret => chs.length ≤ 6 ∧ WriteVerdict d chs ret
  | _ => False

theorem WriteMove.alone {a : WriteArgs} {d now : Device} {ch : Choice} {woken : Bool} {pc : WritePc}
    {e : Effect (Ctl WritePc Int)} (h : WriteMove a now ch woken pc e) (ha : a.data ≠ [])
    (hn : a.nonblock = true) (hreach : a.data.length ≤ ch.reach) {chs : List Choice}
    (hs : WriteAlone d chs now (.run pc)) : WriteAlone d (chs ++ [ch]) e.dev e.ctl := by
  have hlen : (chs ++ [ch]).length = chs.length + 1 := by simp
  cases h with
  | zero h0 => exact absurd h0 ha
  | enter =>
    obtain ⟨h0, rfl⟩ := hs
    exact ⟨by omega, rfl⟩
  | gone hd =>
    obtain ⟨h1, rfl⟩ := hs
    exact ⟨by omega, .gone hd⟩
  | tryNow hd =>
    obtain ⟨h1, rfl⟩ := hs
    exact ⟨by omega, rfl, hd⟩
  | wait _ hblock => cases hn.symm.trans hblock
  | again hf =>
    obtain ⟨h2, rfl, hd⟩ := hs
    exact ⟨by omega, .again hd hf⟩
  | room hf =>
    obtain ⟨h2, rfl, hd⟩ := hs
    exact ⟨by omega, rfl, hd, hf⟩
  | lockInterrupted hsignal =>
    obtain ⟨h3, rfl, hd, -⟩ := hs
    exact ⟨by omega, .interrupted hd (signalled_last chs hsignal)⟩
  | lockedAgain _ hfull =>
    obtain ⟨-, rfl, -, hf⟩ := hs
    cases hf.symm.trans hfull
  | lockedRestart _ hfull =>
    obtain ⟨-, rfl, -, hf⟩ := hs
    cases hf.symm.trans hfull
  | enqueue _ _ hcopy hmoved =>
    obtain ⟨h3, rfl, hd, hf⟩ := hs
    subst hcopy
    refine ⟨by omega, ?_⟩
    rw [copyResult_moved hmoved]
    exact .moved hd hf hmoved
  | copyFault _ hf hcopy hmoved =>
    subst hcopy
    have hpos := writeToCopy_ne_zero ha hf
    have hzero : min (writeToCopy a now) ch.reach = 0 := hmoved
    have hle : writeToCopy a now ≤ a.data.length := Nat.min_le_left _ _
    have : a.data.length ≠ 0 := by simpa using ha
    omega
  | wake => exact ⟨by have := hs.1; omega, hs.2.concat ch⟩
  | queue => exact hs.elim
  | fifoFull => exact hs.elim
  | fifoReady => exact hs.elim
  | faultReady => exact hs.elim
  | waitInterrupted => exact hs.elim
  | sleep => exact hs.elim
  | resume => exact hs.elim
  | restart => exact hs.elim
  | toLock => exact hs.elim

theorem WriteAlone.enabled {d now : Device} {chs : List Choice} {a : WriteArgs}
    {ctl : Ctl WritePc Int} (h : WriteAlone d chs now ctl) (hrun : ∀ ret, ctl ≠ .returned ret)
    (ch : Choice) (woken : Bool) : ((Call.write a ctl).step now ch woken).isSome = true := by
  cases ctl with
  | returned ret => exact absurd rfl (hrun ret)
  | exit ret => rfl
  | run pc =>
    simp only [Call.step, Ctl.step, Option.isSome_map]
    cases pc with
    | start =>
      simp only [writeStep]
      split <;> rfl
    | top =>
      simp only [writeStep]
      split
      · rfl
      · split <;> rfl
    | fullCheck =>
      simp only [writeStep]
      split <;> rfl
    | lock =>
      simp only [writeStep]
      split
      · rfl
      · split <;> split <;> rfl
    | wake ret => rfl
    | _ => exact h.elim

/-! ## The prediction -/

/-- The error of a call that a signal interrupted. -/
def Interrupted (ret : Int) : Prop := ret = -EINTR ∨ ret = -ERESTARTSYS

instance (ret : Int) : Decidable (Interrupted ret) := inferInstanceAs (Decidable (_ ∨ _))

/-- The result of a read against the mask. -/
structure ReadPredicted (mask : PollMask) (chs : List Choice) (res : ReadResult) : Prop where
  gone : res.ret = -ENODEV ↔ Has mask EPOLLHUP
  failed : res.ret = - EIO ↔ Has mask EPOLLERR ∧ ¬ Has mask EPOLLHUP
  signal : Interrupted res.ret → signalled chs
  bytes : ¬ Interrupted res.ret →
    ((1 ≤ res.ret ∧ res.ret = res.bytes.length) ↔ Has mask EPOLLIN)
  again : ¬ Interrupted res.ret →
    (res.ret = -EAGAIN ↔ ¬ Has mask (EPOLLIN ||| EPOLLERR ||| EPOLLHUP))

/-- The result of a write against the mask. -/
structure WritePredicted (mask : PollMask) (chs : List Choice) (ret : Int) : Prop where
  gone : ret = -ENODEV ↔ Has mask EPOLLHUP
  signal : Interrupted ret → signalled chs
  bytes : ¬ Has mask EPOLLERR → ¬ Interrupted ret → (1 ≤ ret ↔ Has mask EPOLLOUT)
  again : ¬ Has mask EPOLLERR → ¬ Interrupted ret → (ret = -EAGAIN ↔ ¬ Has mask EPOLLOUT)

theorem pollFifoMask_again (d : Device) :
    ¬ Has (pollFifoMask d) (EPOLLIN ||| EPOLLERR ||| EPOLLHUP) ↔ kfifoIsEmpty d = true := by
  unfold pollFifoMask
  cases kfifoIsEmpty d <;> cases kfifoIsFull d <;> decide

theorem ReadVerdict.predicted {d : Device} {chs : List Choice} {res : ReadResult}
    (h : ReadVerdict d chs res) : ReadPredicted (pollMask d) chs res := by
  obtain ⟨hhup, herr, hin, -⟩ := pollFifoMask_spec d
  have hagain := pollFifoMask_again d
  cases h with
  | gone ht =>
    rw [pollMask_disconnect ht]
    refine ⟨by decide, by decide, ?_, by decide, by decide⟩
    rintro (hret | hret) <;> exact absurd hret (by decide)
  | failed ht =>
    rw [pollMask_eio ht]
    refine ⟨by decide, by decide, ?_, by decide, by decide⟩
    rintro (hret | hret) <;> exact absurd hret (by decide)
  | @interrupted e hf hsig he =>
    rw [pollMask_fifo hf]
    have hint : Interrupted (ReadResult.error e).ret := by
      rcases he with rfl | rfl
      · exact .inl rfl
      · exact .inr rfl
    refine ⟨iff_of_false ?_ hhup, iff_of_false ?_ (fun h => herr h.1), fun _ => hsig,
      fun hn => absurd hint hn, fun hn => absurd hint hn⟩
    · rcases he with rfl | rfl <;> decide
    · rcases he with rfl | rfl <;> decide
  | again hf hempty =>
    rw [pollMask_fifo hf]
    refine ⟨iff_of_false (by decide) hhup, iff_of_false (by decide) (fun h => herr h.1), ?_, ?_, ?_⟩
    · rintro (hret | hret) <;> exact absurd hret (by decide)
    · intro _
      refine iff_of_false (by decide) ?_
      rw [hin, hempty]
      decide
    · intro _
      exact iff_of_true rfl (hagain.mpr hempty)
  | @moved bytes hf hready hb =>
    rw [pollMask_fifo hf]
    have hpos : 1 ≤ (bytes.length : Int) := by
      have := List.length_pos_iff.mpr hb
      omega
    have hne : ∀ e : Int, 0 ≤ e → (bytes.length : Int) ≠ -e := by
      intro e he
      omega
    refine ⟨iff_of_false (hne _ (by decide)) hhup,
      iff_of_false (hne _ (by decide)) (fun h => herr h.1), ?_, ?_, ?_⟩
    · intro h
      rcases h with hret | hret
      · exact absurd hret (hne _ (by decide))
      · exact absurd hret (hne _ (by decide))
    · intro _
      exact iff_of_true ⟨hpos, rfl⟩ (hin.mpr hready)
    · intro _
      refine iff_of_false (hne _ (by decide)) ?_
      rw [hagain, hready]
      decide

theorem WriteVerdict.predicted {d : Device} {chs : List Choice} {ret : Int}
    (h : WriteVerdict d chs ret) : WritePredicted (pollMask d) chs ret := by
  -- a connected device has the mask of its FIFO or, under EIO, the error alone
  have hmask : isDisconnected d.fault = false →
      ¬ Has (pollMask d) EPOLLHUP ∧ (¬ Has (pollMask d) EPOLLERR →
        (Has (pollMask d) EPOLLOUT ↔ kfifoIsFull d = false)) := by
    intro hd
    by_cases ht : d.fault.type = faultEio
    · rw [pollMask_eio ht]
      exact ⟨by decide, fun hn => absurd (by decide) hn⟩
    · have hf : faultInterruptsRead d.fault = false := by
        rw [isDisconnected, decide_eq_false_iff_not] at hd
        simp [faultInterruptsRead, ht, hd]
      obtain ⟨hhup, -, -, hout⟩ := pollFifoMask_spec d
      rw [pollMask_fifo hf]
      exact ⟨hhup, fun _ => hout⟩
  cases h with
  | gone hd =>
    rw [isDisconnected, decide_eq_true_eq] at hd
    rw [pollMask_disconnect hd]
    refine ⟨by decide, ?_, fun hn => absurd (by decide) hn, fun hn => absurd (by decide) hn⟩
    rintro (hret | hret) <;> exact absurd hret (by decide)
  | interrupted hd hsig =>
    obtain ⟨hhup, -⟩ := hmask hd
    exact ⟨iff_of_false (by decide) hhup, fun _ => hsig, fun _ hn => absurd (.inl rfl) hn,
      fun _ hn => absurd (.inl rfl) hn⟩
  | again hd hfull =>
    obtain ⟨hhup, hout⟩ := hmask hd
    refine ⟨iff_of_false (by decide) hhup, ?_, ?_, ?_⟩
    · rintro (hret | hret) <;> exact absurd hret (by decide)
    · intro herr _
      refine iff_of_false (by decide) ?_
      rw [hout herr, hfull]
      decide
    · intro herr _
      refine iff_of_true rfl ?_
      rw [hout herr, hfull]
      decide
  | @moved n hd hroom hn =>
    obtain ⟨hhup, hout⟩ := hmask hd
    have hne : ∀ e : Int, 0 ≤ e → (n : Int) ≠ -e := by
      intro e he
      omega
    refine ⟨iff_of_false (hne _ (by decide)) hhup, ?_, ?_, ?_⟩
    · intro h
      rcases h with hret | hret
      · exact absurd hret (hne _ (by decide))
      · exact absurd hret (hne _ (by decide))
    · intro herr _
      exact iff_of_true (by omega) ((hout herr).mpr hroom)
    · intro herr _
      exact iff_of_false (hne _ (by decide)) (not_not.mpr ((hout herr).mpr hroom))

/-- What `poll`, `read` and `write` do on their own from the state `s`: a call
that does not block returns after at most six steps of its own, and until then
it can always take the next one. -/
structure PollPredicts (s : Sys) : Prop where
  poll : ∀ {events chs t timedOut mask}, Alone s (.poll events) chs t →
    t.callAt s.callers.length = some (.poll events (.run (.decide timedOut mask))) →
    mask = pollMask s.dev
  read : ∀ {a chs t}, a.count ≠ 0 → a.nonblock = true → (∀ ch ∈ chs, a.count ≤ ch.reach) →
    Alone s (.read a) chs t →
    (∃ res, t.callAt s.callers.length = some (.read a (.returned res)) ∧
      ReadPredicted (pollMask s.dev) chs res) ∨
    (chs.length < 6 ∧ ∀ ch, (t.step (.step s.callers.length ch)).isSome = true)
  write : ∀ {a chs t}, a.data ≠ [] → a.nonblock = true →
    (∀ ch ∈ chs, a.data.length ≤ ch.reach) → Alone s (.write a) chs t →
    (∃ ret, t.callAt s.callers.length = some (.write a (.returned ret)) ∧
      WritePredicted (pollMask s.dev) chs ret) ∨
    (chs.length < 6 ∧ ∀ ch, (t.step (.step s.callers.length ch)).isSome = true)

/-- A caller that can move makes the system move. -/
theorem Sys.step_isSome {t : Sys} {i : Nat} {c : Call} (hat : t.callAt i = some c) {ch : Choice}
    (h : ∀ woken, (c.step t.dev ch woken).isSome = true) :
    (t.step (.step i ch)).isSome = true := by
  obtain ⟨b, hb, rfl⟩ := Option.map_eq_some_iff.mp hat
  obtain ⟨e, he⟩ := Option.isSome_iff_exists.mp (h b.woken)
  simp [Sys.step, hb, he]

theorem Alone.read {s : Sys} (hs : s.Inv) {a : ReadArgs} (ha : a.count ≠ 0)
    (hn : a.nonblock = true) {chs : List Choice} {t : Sys}
    (hreach : ∀ ch ∈ chs, a.count ≤ ch.reach) (h : Alone s (.read a) chs t) :
    ∃ ctl, t.callAt s.callers.length = some (.read a ctl) ∧ ReadAlone s.dev chs t.dev ctl := by
  obtain ⟨c, hat, hQ⟩ := h.induct
    (Q := fun chs now c => (∀ ch ∈ chs, a.count ≤ ch.reach) →
      ∃ ctl, c = .read a ctl ∧ ReadAlone s.dev chs now ctl)
    (fun _ => ⟨.run .start, rfl, rfl, rfl⟩) (by
      intro chs d ch woken c e hm hQ hall
      obtain ⟨ctl, rfl, hstage⟩ := hQ (fun ch' h' => hall ch' (List.mem_append_left _ h'))
      cases hm with
      | read hm => exact ⟨_, rfl, hm.alone ha hn hs.fault (hall ch (by simp)) hstage⟩
      | readReturn =>
        refine ⟨_, rfl, ?_, hstage.2.concat ch⟩
        have := hstage.1
        simp only [List.length_append, List.length_singleton]
        omega)
  obtain ⟨ctl, rfl, hstage⟩ := hQ hreach
  exact ⟨ctl, hat, hstage⟩

theorem Alone.write {s : Sys} {a : WriteArgs} (ha : a.data ≠ []) (hn : a.nonblock = true)
    {chs : List Choice} {t : Sys} (hreach : ∀ ch ∈ chs, a.data.length ≤ ch.reach)
    (h : Alone s (.write a) chs t) :
    ∃ ctl, t.callAt s.callers.length = some (.write a ctl) ∧ WriteAlone s.dev chs t.dev ctl := by
  obtain ⟨c, hat, hQ⟩ := h.induct
    (Q := fun chs now c => (∀ ch ∈ chs, a.data.length ≤ ch.reach) →
      ∃ ctl, c = .write a ctl ∧ WriteAlone s.dev chs now ctl)
    (fun _ => ⟨.run .start, rfl, rfl, rfl⟩) (by
      intro chs d ch woken c e hm hQ hall
      obtain ⟨ctl, rfl, hstage⟩ := hQ (fun ch' h' => hall ch' (List.mem_append_left _ h'))
      cases hm with
      | write hm => exact ⟨_, rfl, hm.alone ha hn (hall ch (by simp)) hstage⟩
      | writeReturn =>
        refine ⟨_, rfl, ?_, hstage.2.concat ch⟩
        have := hstage.1
        simp only [List.length_append, List.length_singleton]
        omega)
  obtain ⟨ctl, rfl, hstage⟩ := hQ hreach
  exact ⟨ctl, hat, hstage⟩

theorem Alone.poll {s : Sys} {events : PollMask} {chs : List Choice} {t : Sys}
    (h : Alone s (.poll events) chs t) :
    ∃ ctl, t.callAt s.callers.length = some (.poll events ctl) ∧ PollAlone s.dev t.dev ctl := by
  obtain ⟨c, hat, hQ⟩ := h.induct
    (Q := fun _ now c => ∃ ctl, c = .poll events ctl ∧ PollAlone s.dev now ctl)
    ⟨.run .registerRead, rfl, rfl⟩ (by
      rintro chs d ch woken c e hm ⟨ctl, rfl, hstage⟩
      cases hm with
      | poll hm => exact ⟨_, rfl, hm.alone hstage⟩
      | pollReturn => exact ⟨_, rfl, hstage⟩)
  obtain ⟨ctl, rfl, hstage⟩ := hQ
  exact ⟨ctl, hat, hstage⟩

/-- Issue the operation and take its steps under these choices. -/
def issueAlone (s : Sys) (op : Op) (chs : List Choice) : Option Sys :=
  chs.foldlM (fun t ch => t.step (.step s.callers.length ch)) (s.invoked op)

theorem alone_of_issueAlone {s t : Sys} {op : Op} {chs : List Choice}
    (h : issueAlone s op chs = some t) : Alone s op chs t := by
  suffices hgoal : ∀ chs chs₀ u, Alone s op chs₀ u →
      chs.foldlM (fun t ch => t.step (.step s.callers.length ch)) u = some t →
      Alone s op (chs₀ ++ chs) t from hgoal chs [] _ .issued h
  intro chs
  induction chs with
  | nil =>
    intro chs₀ u hu ht
    cases ht
    simpa using hu
  | cons ch chs ih =>
    intro chs₀ u hu ht
    rw [List.foldlM_cons] at ht
    obtain ⟨v, hv, hrest⟩ := Option.bind_eq_some_iff.mp ht
    have := ih (chs₀ ++ [ch]) v (hu.step hv) hrest
    simpa using this

/-- A byte is waiting under a delay. -/
def delayedByte : List Label := List.flatten [oneByteWritten,
  [.invoke (.ioctl (.setFault ⟨faultDelay, 0, 50, 0⟩))], List.replicate 5 (.step 1 { reach := 16 })]

end VDevLab.Kernel
