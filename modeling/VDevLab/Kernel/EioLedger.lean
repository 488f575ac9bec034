import VDevLab.Lib.Pool
import VDevLab.Kernel.Calls

/-!
# Counted EIO is conserved

The accounting of EIO occurrences over every interleaving: what successful
`SET_FAULT(EIO)` calls put in is what reads returned as `-EIO`, plus what the
active fault still holds, plus what a later control call threw away.

The first three amounts are read off the state. The last one and the list of
consuming reads are functions of the run.
-/

namespace VDevLab.Kernel

/-! ## The four accounts -/

/-- The call returned `-EIO` or is committed to. -/
def Call.returnsEio : Call → Bool
  | .read _ ctl => ctl.committed.any fun res => decide (res.ret = - EIO)
  | _ => false

/-- The ioctl has passed its store: it returned 0 or is committed to. -/
def ioctlSucceeded : Ctl IoctlPc IoctlResult → Bool
  | .run .wakeRead => true
  | .run .wakeWrite => true
  | .run _ => false
  | .exit res => res.ret = 0
  | .returned res => res.ret = 0

/-- The occurrences a successful `SET_FAULT(EIO)` put in. -/
def Call.injected : Call → Nat
  | .ioctl (.setFault config) ctl =>
      if config.type = faultEio ∧ ioctlSucceeded ctl then config.repeats.toNat else 0
  | _ => 0

def injected (s : Sys) : Nat := (s.callers.map fun c => c.call.injected).sum

def eioReturns (s : Sys) : Nat := s.callers.countP fun c => c.call.returnsEio

/-- The caller a move steps, with its call before the move. -/
def mover (m : Move Sys Label) : Option (Nat × Call) :=
  match m.label with
  | .invoke _ => none
  | .step i _ => (m.pre.callers[i]?).map fun c => (i, c.call)

/-- What a move throws away: the occurrences left in the record it replaces. -/
def forfeit (m : Move Sys Label) : Nat :=
  if (mover m).any (·.2.replacesFault) then remaining m.pre.dev.fault else 0

def forfeited (tr : List (Move Sys Label)) : Nat := (tr.map forfeit).sum

/-- The caller that takes an occurrence in this move. -/
def consumer (m : Move Sys Label) : Option Nat :=
  match mover m with
  | some (i, c) => if c.samplesFault ∧ m.pre.dev.fault.type = faultEio then some i else none
  | none => none

/-- The callers that took an occurrence, in order. -/
def consumers (tr : List (Move Sys Label)) : List Nat := tr.filterMap consumer

/-! ## One move of one call -/

theorem natCast_ne_neg_eio (n : Nat) : (n : Int) ≠ - EIO := by
  show (n : Int) ≠ -5
  omega

theorem ReadMove.returnsEio_iff {a : ReadArgs} {d : Device} {ch : Choice} {woken : Bool}
    {pc : ReadPc} {e : Effect (Ctl ReadPc ReadResult)} (h : ReadMove a d ch woken pc e)
    (hd : Canonical d.fault) (hc : a.Wf (.run pc)) :
    (Call.read a e.ctl).returnsEio = true ↔
      (Call.read a (.run pc)).samplesFault = true ∧ d.fault.type = faultEio := by
  cases h with
  | @sampleDelay l s hs hdelay =>
    subst hs
    rcases applyReadFault_cases hd l with ⟨-, -, heq⟩ | ⟨hne, -⟩
    · rw [heq] at hdelay; exact absurd rfl hdelay
    · simp [Call.returnsEio, Ctl.committed, hne]
  | @sampleFail l s hs _ _ =>
    subst hs
    rcases applyReadFault_cases hd l with ⟨ht, -, heq⟩ | ⟨hne, -, hret⟩
    · simp [Call.returnsEio, Ctl.committed, Call.samplesFault, ht, heq]
    · simp [Call.returnsEio, Ctl.committed, hne, hret]
  | @samplePass l s hs _ hret =>
    subst hs
    rcases applyReadFault_cases hd l with ⟨-, -, heq⟩ | ⟨hne, -⟩
    · rw [heq] at hret
      exact absurd (show - EIO = 0 from hret) (by decide)
    · simp [Call.returnsEio, Ctl.committed, hne]
  | delayFail hr => exact absurd hc.2 hr
  | wake =>
    obtain ⟨bytes, -, -, rfl⟩ := hc
    simp [Call.returnsEio, Ctl.committed, Call.samplesFault, natCast_ne_neg_eio]
  | copyFault _ he hcopy hmoved =>
    subst hcopy
    simp +decide [Call.returnsEio, Ctl.committed, Call.samplesFault, readDequeue,
      copyResult_unmoved (readToCopy_ne_zero _ hc he) hmoved]
  | zero => simp [Call.returnsEio, Ctl.committed, Call.samplesFault]
  | enter => simp [Call.returnsEio, Ctl.committed, Call.samplesFault]
  | _ => simp +decide [Call.returnsEio, Ctl.committed, Call.samplesFault, ReadResult.error]

/-- Every move keeps the books of its own call and the device. -/
theorem ReadMove.balance {a : ReadArgs} {d : Device} {ch : Choice} {woken : Bool} {pc : ReadPc}
    {e : Effect (Ctl ReadPc ReadResult)} (h : ReadMove a d ch woken pc e)
    (hd : Canonical d.fault) (hc : a.Wf (.run pc)) :
    remaining d.fault = (Call.read a e.ctl).returnsEio.toNat + remaining e.dev.fault := by
  have hiff := h.returnsEio_iff hd hc
  rcases (CallMove.read h).fault_cases hd with ⟨hs, ht, hr, he⟩ | ⟨hn, he⟩
  · have he : e.dev.fault = takeOccurrence d.fault := he
    rw [he, hiff.mpr ⟨hs, ht⟩, Bool.toNat_true, Nat.add_comm]
    exact (remaining_takeOccurrence ht hr).symm
  · have hfalse : (Call.read a e.ctl).returnsEio = false := by
      rw [← Bool.not_eq_true, hiff]; exact hn
    have he : e.dev.fault = d.fault := he.resolve_right (by simp [Call.replacesFault])
    rw [hfalse, he, Bool.toNat_false, Nat.zero_add]

theorem IoctlMove.balance {cmd : IoctlCmd} {d : Device} {woken : Bool} {pc : IoctlPc}
    {e : Effect (Ctl IoctlPc IoctlResult)} (h : IoctlMove cmd d woken pc e)
    (hc : cmd.Wf (.run pc)) :
    (Call.ioctl cmd e.ctl).injected + remaining d.fault =
      (Call.ioctl cmd (.run pc)).injected + remaining e.dev.fault +
        (if (Call.ioctl cmd (.run pc)).replacesFault then remaining d.fault else 0) := by
  cases h with
  | @store config =>
    obtain ⟨asked, rfl, hv⟩ := hc
    have ht := (validateFault_canonical hv).2
    by_cases heio : asked.type = faultEio
    · simp [Call.injected, ioctlSucceeded, Call.replacesFault, remaining, ht, heio,
        validateFault_repeats hv heio]
    · simp [Call.injected, ioctlSucceeded, Call.replacesFault, remaining, ht, heio]
  | setRefused hcmd hv =>
    subst hcmd
    rw [validateFault_error hv]
    simp +decide [Call.injected, ioctlSucceeded, Call.replacesFault]
  | clear hcmd => subst hcmd; simp [Call.injected, Call.replacesFault]
  | reset hcmd => subst hcmd; simp [Call.injected, Call.replacesFault]
  | setUnreadable hcmd =>
    subst hcmd
    simp +decide [Call.injected, ioctlSucceeded, Call.replacesFault]
  | setAccepted hcmd => subst hcmd; simp [Call.injected, ioctlSucceeded, Call.replacesFault]
  | get hcmd => subst hcmd; simp [Call.injected, Call.replacesFault]
  | other hcmd => subst hcmd; simp [Call.injected, Call.replacesFault]
  | outUnwritable => rw [hc.1]; simp [Call.injected, Call.replacesFault]
  | out => rw [hc.1]; simp [Call.injected, Call.replacesFault]
  | wakeRead => cases cmd <;> simp [Call.injected, ioctlSucceeded, Call.replacesFault]
  | wakeWrite => cases cmd <;> simp [Call.injected, ioctlSucceeded, Call.replacesFault]

/-- Every move keeps the books of its own call and the device. -/
theorem CallMove.balance {d : Device} {ch : Choice} {woken : Bool} {c : Call} {e : Effect Call}
    (h : CallMove d ch woken c e) (hd : Canonical d.fault) (hc : c.Wf) :
    e.ctl.injected + c.returnsEio.toNat + remaining d.fault =
      c.injected + e.ctl.returnsEio.toNat + remaining e.dev.fault +
        (if c.replacesFault then remaining d.fault else 0) := by
  have hkeep : ∀ {k : Effect Call}, k.dev.fault = d.fault → remaining k.dev.fault = remaining d.fault :=
    fun hk => by rw [hk]
  cases h with
  | read hm =>
    have := hm.balance hd hc
    simp only [Call.injected, Call.replacesFault, Effect.map] at this ⊢
    simp [Call.returnsEio, Ctl.committed] at this ⊢
    omega
  -- writes and polls neither sample nor replace the record
  | @write a pc e hm =>
    have he := ((CallMove.write hm).fault_cases hd).resolve_left (by simp [Call.samplesFault])
    have := hkeep (he.2.resolve_right (by simp [Call.replacesFault]))
    simp [Call.injected, Call.replacesFault, Call.returnsEio, Effect.map] at this ⊢
    omega
  | poll hm =>
    have he := ((CallMove.poll hm).fault_cases hd).resolve_left (by simp [Call.samplesFault])
    have := hkeep (he.2.resolve_right (by simp [Call.replacesFault]))
    simp [Call.injected, Call.replacesFault, Call.returnsEio, Effect.map] at this ⊢
    omega
  | ioctl hm =>
    have := hm.balance hc
    simp [Call.returnsEio, Effect.map] at this ⊢
    omega
  | readReturn => simp [Call.injected, Call.replacesFault, Call.returnsEio, Ctl.committed]
  | writeReturn => simp [Call.injected, Call.replacesFault, Call.returnsEio]
  | pollReturn => simp [Call.injected, Call.replacesFault, Call.returnsEio]
  | @ioctlReturn cmd res =>
    cases cmd <;> simp [Call.injected, ioctlSucceeded, Call.replacesFault, Call.returnsEio]

/-- A call comes to return `-EIO` exactly by taking an occurrence. -/
theorem CallMove.returnsEio_iff {d : Device} {ch : Choice} {woken : Bool} {c : Call}
    {e : Effect Call} (h : CallMove d ch woken c e) (hd : Canonical d.fault) (hc : c.Wf) :
    e.ctl.returnsEio = true ↔
      c.returnsEio = true ∨ (c.samplesFault = true ∧ d.fault.type = faultEio) := by
  cases h with
  | read hm =>
    have := hm.returnsEio_iff hd hc
    simpa [Call.returnsEio, Ctl.committed, Effect.map] using this
  | readReturn => simp [Call.returnsEio, Ctl.committed, Call.samplesFault]
  | _ => simp [Call.returnsEio, Call.samplesFault, Effect.map]

theorem Call.returnsEio_of_samples {c : Call} (h : c.samplesFault = true) :
    c.returnsEio = false := by
  cases c with
  | read a ctl =>
    cases ctl with
    | run pc => rfl
    | _ => simp [Call.samplesFault] at h
  | _ => rfl

/-- Only reads of a positive length return `-EIO`. -/
theorem Call.Wf.read_of_returnsEio {c : Call} (hc : c.Wf) (h : c.returnsEio = true) :
    ∃ a ctl, c = .read a ctl ∧ a.count ≠ 0 := by
  have key : ∀ {a : ReadArgs} {res : ReadResult}, ReadOutcome a res → res.ret = - EIO →
      a.count ≠ 0 := by
    intro a res hout hret
    cases hout with
    | zero => exact absurd hret (by decide)
    | failed hpos _ => exact hpos
    | copied => exact absurd hret (natCast_ne_neg_eio _)
    | unmoved hpos => exact hpos
  cases c with
  | read a ctl =>
    cases ctl with
    | run pc => cases h
    | exit res => exact ⟨a, _, rfl, key hc (by simpa [Call.returnsEio, Ctl.committed] using h)⟩
    | returned res => exact ⟨a, _, rfl, key hc (by simpa [Call.returnsEio, Ctl.committed] using h)⟩
  | _ => cases h

theorem Op.returnsEio (op : Op) : op.call.returnsEio = false := by
  cases op <;> rfl

theorem Op.injected (op : Op) : op.call.injected = 0 := by
  cases op with
  | ioctl cmd => cases cmd <;> simp [Op.call, Call.injected, ioctlSucceeded]
  | _ => rfl

/-! ## One step of the system -/

theorem mover_step {s t : Sys} {i : Nat} {ch : Choice} {c : Caller} (hc : s.callers[i]? = some c) :
    mover ⟨s, .step i ch, t⟩ = some (i, c.call) := by
  simp [mover, hc]

theorem injected_after {s : Sys} {i : Nat} {c : Caller} (hc : s.callers[i]? = some c)
    (e : Effect Call) :
    injected (s.after i e) + c.call.injected = injected s + e.ctl.injected := by
  have := Pool.sum_map_set (fun c : Caller => c.call.injected) hc ⟨e.ctl, e.woken⟩
  simpa [injected, Sys.after, Function.comp_def] using this

theorem eioReturns_after {s : Sys} {i : Nat} {c : Caller} (hc : s.callers[i]? = some c)
    (e : Effect Call) :
    eioReturns (s.after i e) + c.call.returnsEio.toNat = eioReturns s + e.ctl.returnsEio.toNat := by
  have := Pool.countP_set (fun c : Caller => c.call.returnsEio) hc ⟨e.ctl, e.woken⟩
  simpa only [eioReturns, Sys.after, List.countP_map, Function.comp_def, Caller.wakeUp_call]
    using this

theorem eioReturns_invoked (s : Sys) (op : Op) : eioReturns (s.invoked op) = eioReturns s := by
  simp [eioReturns, Sys.invoked, op.returnsEio]

/-- The books of the whole system. -/
def Balanced (tr : List (Move Sys Label)) (s : Sys) : Prop :=
  injected s = eioReturns s + remaining s.dev.fault + forfeited tr

theorem forfeited_snoc (tr : List (Move Sys Label)) (m : Move Sys Label) :
    forfeited (tr ++ [m]) = forfeited tr + forfeit m := by
  simp [forfeited]

theorem Balanced.step {tr : List (Move Sys Label)} {s t : Sys} {l : Label}
    (hb : Balanced tr s) (hi : s.Inv) (h : s.step l = some t) :
    Balanced (tr ++ [⟨s, l, t⟩]) t := by
  unfold Balanced at hb ⊢
  rw [forfeited_snoc]
  rcases Sys.step_cases h with ⟨op, rfl, rfl⟩ | ⟨i, ch, c, e, rfl, hc, hm, rfl⟩
  · have hin : injected (s.invoked op) = injected s := by
      simp [injected, Sys.invoked, op.injected]
    rw [hin, eioReturns_invoked, hb]
    rfl
  · have hf : forfeit ⟨s, .step i ch, s.after i e⟩
        = if c.call.replacesFault then remaining s.dev.fault else 0 := by
      simp [forfeit, mover_step hc]
    have h1 := injected_after hc e
    have h2 := eioReturns_after hc e
    have h3 := hm.balance hi.fault (hi.calls c (List.mem_of_getElem? hc))
    rw [hf]
    show _ = _ + remaining e.dev.fault + _
    omega

/-! ## Who consumes -/

theorem consumer_eq_some {m : Move Sys Label} {i : Nat} :
    consumer m = some i ↔ ∃ c, mover m = some (i, c) ∧ c.samplesFault = true ∧
      m.pre.dev.fault.type = faultEio := by
  unfold consumer
  cases mover m with
  | none => simp
  | some ic =>
    obtain ⟨j, c⟩ := ic
    simp only [Option.ite_none_right_eq_some, Option.some.injEq, Prod.mk.injEq]
    constructor
    · rintro ⟨hs, rfl⟩; exact ⟨c, ⟨rfl, rfl⟩, hs⟩
    · rintro ⟨c', ⟨rfl, rfl⟩, hs⟩; exact ⟨hs, rfl⟩

theorem consumer_step {s t : Sys} {i j : Nat} {ch : Choice} {c : Caller}
    (hc : s.callers[i]? = some c) :
    consumer ⟨s, .step i ch, t⟩ = some j ↔
      i = j ∧ c.call.samplesFault = true ∧ s.dev.fault.type = faultEio := by
  rw [consumer_eq_some, mover_step hc]
  constructor
  · rintro ⟨c', heq, hs⟩; cases heq; exact ⟨rfl, hs⟩
  · rintro ⟨rfl, hs⟩; exact ⟨_, rfl, hs⟩

theorem consumers_snoc (tr : List (Move Sys Label)) (m : Move Sys Label) :
    consumers (tr ++ [m]) = consumers tr ++ (consumer m).toList := by
  cases hm : consumer m <;> simp [consumers, hm]

/-- The consuming callers are the ones that return `-EIO`, each once. -/
structure ConsumedOnce (tr : List (Move Sys Label)) (s : Sys) : Prop where
  nodup : (consumers tr).Nodup
  mem_iff : ∀ i, i ∈ consumers tr ↔ ∃ c, s.callers[i]? = some c ∧ c.call.returnsEio = true

theorem ConsumedOnce.invoke {tr : List (Move Sys Label)} {s : Sys} (hu : ConsumedOnce tr s)
    (op : Op) : ConsumedOnce (tr ++ [⟨s, .invoke op, s.invoked op⟩]) (s.invoked op) := by
  have hnone : consumers (tr ++ [⟨s, .invoke op, s.invoked op⟩]) = consumers tr := by
    rw [consumers_snoc]
    exact List.append_nil _
  refine ⟨hnone ▸ hu.nodup, fun j => ?_⟩
  rw [hnone, hu.mem_iff]
  constructor
  · rintro ⟨c, hc, hr⟩; exact ⟨c, Sys.getElem?_invoked op hc, hr⟩
  · intro h
    obtain ⟨c, hc, hr⟩ := h
    rcases Sys.invoked_cases hc with hc | ⟨-, rfl⟩
    · exact ⟨c, hc, hr⟩
    · exact absurd hr (by rw [op.returnsEio]; decide)

theorem ConsumedOnce.step {tr : List (Move Sys Label)} {s t : Sys} {l : Label}
    (hu : ConsumedOnce tr s) (hi : s.Inv) (h : s.step l = some t) :
    ConsumedOnce (tr ++ [⟨s, l, t⟩]) t := by
  rcases Sys.step_cases h with ⟨op, rfl, rfl⟩ | ⟨i, ch, c, e, rfl, hc, hm, rfl⟩
  · exact hu.invoke op
  · have hiff := hm.returnsEio_iff hi.fault (hi.calls c (List.mem_of_getElem? hc))
    refine ⟨?_, fun j => ?_⟩ <;> rw [consumers_snoc]
    · -- a caller about to sample does not return EIO yet, so it is not listed
      refine List.nodup_append.mpr ⟨hu.nodup, by cases consumer _ <;> simp, ?_⟩
      rintro j hj k hk rfl
      obtain ⟨rfl, hs, -⟩ := (consumer_step hc).mp (Option.mem_toList.mp hk)
      obtain ⟨c', hc', hr⟩ := (hu.mem_iff i).mp hj
      cases hc.symm.trans hc'
      rw [Call.returnsEio_of_samples hs] at hr
      cases hr
    · rw [List.mem_append, Option.mem_toList, consumer_step hc, hu.mem_iff, Sys.after_getElem? hc]
      by_cases hij : i = j
      · subst hij
        simp only [hc, if_true, Option.some.injEq, exists_eq_left', Caller.wakeUp_call, hiff,
          true_and]
      · simp only [hij, if_false, false_and, or_false, Option.map_eq_some_iff]
        constructor
        · intro h
          obtain ⟨c', hc', hr⟩ := h
          exact ⟨_, ⟨c', hc', rfl⟩, by rw [Caller.wakeUp_call]; exact hr⟩
        · intro h
          obtain ⟨_, ⟨c', hc', rfl⟩, hr⟩ := h
          exact ⟨c', hc', by rw [Caller.wakeUp_call] at hr; exact hr⟩

/-- What a step means for the number of consumed occurrences. -/
theorem eioReturns_step {s : Sys} {i : Nat} {ch : Choice} {c : Caller} {e : Effect Call}
    (hi : s.Inv) (hc : s.callers[i]? = some c) (hm : CallMove s.dev ch c.woken c.call e) :
    (c.call.samplesFault = true ∧ s.dev.fault.type = faultEio ∧ c.call.returnsEio = false ∧
      e.ctl.returnsEio = true ∧ eioReturns (s.after i e) = eioReturns s + 1) ∨
    (¬ (c.call.samplesFault = true ∧ s.dev.fault.type = faultEio) ∧
      e.ctl.returnsEio = c.call.returnsEio ∧ eioReturns (s.after i e) = eioReturns s) := by
  have hiff := hm.returnsEio_iff hi.fault (hi.calls c (List.mem_of_getElem? hc))
  have hafter := eioReturns_after hc e
  by_cases hs : c.call.samplesFault = true ∧ s.dev.fault.type = faultEio
  · -- the sampling step itself commits the caller to `-EIO`
    have hfalse := Call.returnsEio_of_samples hs.1
    have htrue := hiff.mpr (.inr hs)
    rw [hfalse, htrue, Bool.toNat_true, Bool.toNat_false] at hafter
    exact .inl ⟨hs.1, hs.2, hfalse, htrue, hafter⟩
  · have hsame : e.ctl.returnsEio = c.call.returnsEio := by
      rw [Bool.eq_iff_iff, hiff]
      simp [hs]
    rw [hsame] at hafter
    exact .inr ⟨hs, hsame, by omega⟩

/-- One caller returns `-EIO` for each occurrence that was taken. -/
theorem eioReturns_eq_consumers {tr : List (Move Sys Label)} {s : Sys} (h : machine.Run tr s) :
    eioReturns s = (consumers tr).length := by
  refine h.induct (P := fun tr s => eioReturns s = (consumers tr).length)
    (by rintro s rfl; rfl) ?_
  intro tr s l t hr ih hl
  rw [consumers_snoc, List.length_append, ← ih]
  rcases Sys.step_cases hl with ⟨op, rfl, rfl⟩ | ⟨i, ch, c, e, rfl, hc, hm, rfl⟩
  · exact eioReturns_invoked s op
  · rcases eioReturns_step (machine_inv hr) hc hm with ⟨hs, ht, -, -, hk⟩ | ⟨hns, -, hk⟩
    · rw [hk, (consumer_step hc).mpr ⟨rfl, hs, ht⟩]
      rfl
    · have hnone : consumer ⟨s, .step i ch, s.after i e⟩ = none := by
        rw [Option.eq_none_iff_forall_ne_some]
        intro j hj
        exact hns ((consumer_step hc).mp hj).2
      rw [hk, hnone]
      rfl

/-! ## The ledger -/

/-- Everything the accounting says about a run that reached `s`. -/
structure EioLedger (tr : List (Move Sys Label)) (s : Sys) : Prop where
  /-- Put in = returned + left + thrown away. -/
  balance : injected s = eioReturns s + remaining s.dev.fault + forfeited tr
  /-- No caller takes two occurrences. -/
  once : (consumers tr).Nodup
  /-- The callers that took one are the callers that return `-EIO`. -/
  consumers_return : ∀ i, i ∈ consumers tr ↔
    ∃ c, s.callers[i]? = some c ∧ c.call.returnsEio = true
  /-- They are reads of a positive length. -/
  consumers_read : ∀ i ∈ consumers tr, ∃ c a ctl,
    s.callers[i]? = some c ∧ c.call = .read a ctl ∧ a.count ≠ 0
  /-- Taking one lowers the count by one, commits the caller to `-EIO`, and
  leaves the state NONE when it was the last. -/
  takes_one : ∀ m ∈ tr, ∀ i, consumer m = some i →
    remaining m.post.dev.fault + 1 = remaining m.pre.dev.fault ∧
    (∃ c, m.post.callers[i]? = some c ∧ c.call.returnsEio = true) ∧
    (remaining m.pre.dev.fault = 1 → m.post.dev.fault = clearFaultLocked)
  /-- Nothing else touches the record but a control call that replaces it. -/
  untouched : ∀ m ∈ tr, m.post.dev.fault ≠ m.pre.dev.fault →
    (consumer m).isSome = true ∨ (mover m).any (·.2.replacesFault) = true

theorem step_takes_one {s t : Sys} {l : Label} (hi : s.Inv) (h : s.step l = some t) {i : Nat}
    (hcons : consumer ⟨s, l, t⟩ = some i) :
    remaining t.dev.fault + 1 = remaining s.dev.fault ∧
    (∃ c, t.callers[i]? = some c ∧ c.call.returnsEio = true) ∧
    (remaining s.dev.fault = 1 → t.dev.fault = clearFaultLocked) := by
  rcases Sys.step_cases h with ⟨op, rfl, rfl⟩ | ⟨j, ch, c, e, rfl, hc, hm, rfl⟩
  · cases hcons
  · obtain ⟨rfl, hs⟩ := (consumer_step hc).mp hcons
    have hwf := hi.calls c (List.mem_of_getElem? hc)
    obtain ⟨-, ht, hr, he⟩ := (hm.fault_cases hi.fault).resolve_right (fun hn => hn.1 hs)
    show remaining e.dev.fault + 1 = _ ∧ _ ∧ (_ → e.dev.fault = _)
    rw [he]
    refine ⟨remaining_takeOccurrence ht hr, ⟨_, Sys.after_getElem?_self hc e, ?_⟩,
      takeOccurrence_last ht⟩
    rw [Caller.wakeUp_call]
    exact (hm.returnsEio_iff hi.fault hwf).mpr (.inr hs)

theorem step_untouched {s t : Sys} {l : Label} (hi : s.Inv) (h : s.step l = some t)
    (hne : t.dev.fault ≠ s.dev.fault) :
    (consumer ⟨s, l, t⟩).isSome = true ∨ (mover ⟨s, l, t⟩).any (·.2.replacesFault) = true := by
  rcases Sys.step_cases h with ⟨op, rfl, rfl⟩ | ⟨i, ch, c, e, rfl, hc, hm, rfl⟩
  · exact absurd rfl hne
  · rcases hm.fault_cases hi.fault with ⟨hs, ht, -⟩ | ⟨-, he | hr⟩
    · exact .inl (Option.isSome_iff_exists.mpr ⟨i, (consumer_step hc).mpr ⟨rfl, hs, ht⟩⟩)
    · exact absurd he hne
    · exact .inr (by rw [mover_step hc]; exact hr)

/-- **Counted EIO is conserved** along every run of the module. -/
theorem eio_conserved {tr : List (Move Sys Label)} {s : Sys} (h : machine.Run tr s) :
    EioLedger tr s := by
  have hbooks : Balanced tr s ∧ ConsumedOnce tr s := by
    refine h.induct (P := fun tr s => Balanced tr s ∧ ConsumedOnce tr s) ?_ ?_
    · rintro s rfl
      exact ⟨rfl, List.nodup_nil, by simp [consumers, Sys.fresh]⟩
    · intro tr s l t hr hbooks hl
      obtain ⟨hb, hu⟩ := hbooks
      exact ⟨hb.step (machine_inv hr) hl, hu.step (machine_inv hr) hl⟩
  obtain ⟨hb, hu⟩ := hbooks
  refine ⟨hb, hu.nodup, hu.mem_iff, ?_, ?_, ?_⟩
  · intro i hmem
    obtain ⟨c, hc, hr⟩ := (hu.mem_iff i).mp hmem
    obtain ⟨a, ctl, heq, hpos⟩ :=
      ((machine_inv h).calls c (List.mem_of_getElem? hc)).read_of_returnsEio hr
    exact ⟨c, a, ctl, hc, heq, hpos⟩
  · refine h.forall_moves (P := fun m => ∀ i, consumer m = some i → _) ?_
    rintro s l t ⟨tr, hr⟩ hl i hcons
    exact step_takes_one (machine_inv hr) hl hcons
  · refine h.forall_moves (P := fun m => m.post.dev.fault ≠ m.pre.dev.fault → _) ?_
    rintro s l t ⟨tr, hr⟩ hl hne
    exact step_untouched (machine_inv hr) hl hne

/-- `SET_FAULT(EIO, 2)`, one read, then `CLEAR_FAULT`: one occurrence is
returned and one is thrown away. -/
def eioTrial : List Label :=
  [.invoke (.ioctl (.setFault ⟨faultEio, 2, 0, 0⟩)), .step 0 { reach := 16 }, .step 0 {},
    .invoke (.read ⟨8, true⟩), .step 1 {}, .step 1 {},
    .invoke (.ioctl .clearFault), .step 2 {}]

theorem eio_conserved_trial : ∃ tr s, machine.Run tr s ∧ EioLedger tr s ∧
    injected s = 2 ∧ eioReturns s = 1 ∧ forfeited tr = 1 ∧ consumers tr = [1] := by
  have hrun : (machine.replay Sys.fresh eioTrial).map
      (fun p => (injected p.2, eioReturns p.2, forfeited p.1, consumers p.1))
        = some (2, 1, 1, [1]) := by decide
  obtain ⟨tr, s, hr, heq⟩ := Lts.exists_run_of_replay (M := machine) rfl hrun
  simp only [Prod.mk.injEq] at heq
  exact ⟨tr, s, hr, eio_conserved hr, heq⟩

end VDevLab.Kernel
