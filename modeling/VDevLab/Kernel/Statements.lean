import VDevLab.Lib.Glance
import VDevLab.Kernel.Linearizable
import VDevLab.Kernel.Locked

/-!
# The statements are linearizable

Here the sections run statement by statement under their mutexes, and the
reads without a mutex look at the device in the middle of them. What the
callers see is still a sequence of whole operations.

A section takes effect at the statement behind which neither the type of the
record nor the FIFO changes any more. `RESET` clears the record before the
FIFO. A call between the two sees no fault beside the old FIFO, which no order
of whole sections shows; but a call that sees no fault does not return for it.
-/

namespace VDevLab.Kernel

open Linear

/-! ## What is read without a mutex -/

/-- The type of the record, and the FIFO. To see no fault decides nothing. -/
def glances : Glances guards where
  seen
    | .faultLock => fun d d' => d.fault.type = d'.fault.type
    | .fifoLock => fun d d' => d.fifo = d'.fifo
  near
    | .faultLock => fun d a => d.fault.type = a.fault.type ∨ d.fault.type = faultNone
    | .fifoLock => fun d a => d.fifo = a.fifo
  seen_equiv
    | .faultLock => ⟨fun _ => rfl, Eq.symm, Eq.trans⟩
    | .fifoLock => ⟨fun _ => rfl, Eq.symm, Eq.trans⟩
  seen_of_same {l} _ _ h := by
    cases l with
    | faultLock => exact congrArg FaultConfig.type h
    | fifoLock => exact h
  near_of_seen {l} _ _ h := by
    cases l with
    | faultLock => exact .inl h
    | fifoLock => exact h
  near_congr {l s t a b} hs ha h := by
    cases l with
    | faultLock =>
      have hst : s.fault = t.fault := hs
      have hab : a.fault = b.fault := ha
      have hnear : s.fault.type = a.fault.type ∨ s.fault.type = faultNone := h
      rwa [hst, hab] at hnear
    | fifoLock =>
      have hst : s.fifo = t.fifo := hs
      have hab : a.fifo = b.fifo := ha
      have hnear : s.fifo = a.fifo := h
      rwa [hst, hab] at hnear

/-- What is seen of `d` may be seen while the device is `a`. -/
structure Near (d a : Device) : Prop where
  type : d.fault.type = a.fault.type ∨ d.fault.type = faultNone
  fifo : d.fifo = a.fifo

theorem near_iff {d a : Device} : (∀ l, glances.near l d a) ↔ Near d a := by
  refine ⟨fun h => ⟨h .faultLock, h .fifoLock⟩, fun h l => ?_⟩
  cases l with
  | faultLock => exact h.type
  | fifoLock => exact h.fifo

theorem Near.refl (d : Device) : Near d d := ⟨.inl rfl, rfl⟩

/-- A word is stored that is not the type, or the type of no fault. -/
theorem Near.setWord {d a : Device} (h : Near d a) {w : Word} {v : UInt32}
    (hw : w ≠ .type ∨ v = faultNone) : Near { d with fault := d.fault.setWord v w } a := by
  refine ⟨?_, h.fifo⟩
  cases w with
  | type => exact .inr (hw.resolve_left fun hne => hne rfl)
  | _ => exact h.type

/-! ## Sections show nothing but their effect -/

section Steady

variable {a d : Device}

theorem settled_loadWords {k : FaultConfig → Section} (hk : ∀ config, glances.Settled (k config) d)
    (config : FaultConfig) (ws : List Word) : glances.Settled (loadWords config k ws) d := by
  induction ws generalizing config with
  | nil => exact hk config
  | cons w ws ih => exact ⟨fun l => (glances.seen_equiv l).refl d, ih _⟩

/-- A record whose type is there already. -/
theorem settled_storeWords {config : FaultConfig} {k : Section} (hk : ∀ d, glances.Settled k d)
    (ws : List Word) (hd : d.fault.type = config.type) :
    glances.Settled (storeWords config k ws) d := by
  induction ws generalizing d with
  | nil => exact hk d
  | cons w ws ih =>
    have htype : (d.fault.setWord (config.word w) w).type = config.type := by
      cases w with
      | type => rfl
      | _ => exact hd
    refine ⟨fun l => ?_, ih htype⟩
    cases l with
    | faultLock => exact hd.trans htype.symm
    | fifoLock => rfl

/-- A record that is stored takes effect with its type. -/
theorem steady_storeWords {config : FaultConfig} {k : Section} (hk : ∀ d, glances.Settled k d)
    (ws : List Word) (hd : Near d a) : glances.Steady a (storeWords config k ws) d := by
  induction ws generalizing d with
  | nil => exact (hk d).steady
  | cons w ws ih =>
    by_cases hw : w = .type
    · subst hw
      exact .inl (settled_storeWords hk ws rfl)
    · have hnear := hd.setWord (v := config.word w) (.inl hw)
      exact .inr ⟨near_iff.mpr hnear, ih hnear⟩

/-- The record is cleared, and more is to come. -/
theorem steady_clearWords {k : Section} (hk : ∀ d, Near d a → glances.Steady a k d)
    (hd : Near d a) : glances.Steady a (clearWords k) d := by
  rw [clearWords]
  generalize [Word.type, .repeats, .delayMs, .partialReadBytes] = ws
  induction ws generalizing d with
  | nil => exact hk d hd
  | cons w ws ih =>
    have hword : w ≠ .type ∨ clearFaultLocked.word w = faultNone := by
      cases w <;> simp [clearFaultLocked, FaultConfig.word]
    have hnear := hd.setWord hword
    exact .inr ⟨near_iff.mpr hnear, ih hnear⟩

/-- A look under a mutex. -/
theorem steady_look {k : Device → Section} (hd : Near d a) (hk : ∀ d', glances.Steady a (k d') d) :
    glances.Steady a (.act id k) d :=
  .inr ⟨near_iff.mpr hd, hk d⟩

theorem steady_load {w : Word} {k : UInt32 → Section} (hd : Near d a)
    (hk : ∀ v, glances.Steady a (k v) d) : glances.Steady a (load w k) d :=
  steady_look hd fun _ => hk _

theorem steady_lock {l : Mutex} {k : Section} (hk : glances.Steady a k d) :
    glances.Steady a (.lock l k) d := hk

/-- The end of a section under one mutex. -/
theorem settled_end (l : Mutex) (c : Call) (d : Device) :
    glances.Settled (.unlock l (.done c)) d := trivial

theorem sampleSection_steady (args : ReadArgs) (l : ReadLocals) (d : Device) :
    glances.Steady d (sampleSection args l) d := by
  have hd := Near.refl d
  refine steady_lock (steady_load hd fun type => ?_)
  split_ifs
  · trivial
  · refine steady_load hd fun repeats => ?_
    split_ifs
    · exact steady_storeWords (settled_end _ _) _ hd
    · have hnear := hd.setWord (w := .repeats) (v := repeats - 1) (.inl (by simp))
      refine .inr ⟨near_iff.mpr hnear, steady_load hnear fun left => ?_⟩
      split_ifs
      · exact steady_storeWords (settled_end _ _) _ hnear
      · trivial
  · exact steady_load hd fun _ => trivial
  · trivial
  · exact steady_load hd fun _ => trivial
  · trivial
  · trivial

theorem Begins.steady {ch : Choice} {order : WordOrder} {c : Call} {p : Section}
    (h : Begins ch order c p) (d : Device) : glances.Steady d p d := by
  have hd := Near.refl d
  cases h with
  | sample => exact sampleSection_steady _ _ d
  | dequeue =>
    refine steady_lock (steady_look hd fun d' => ?_)
    split
    · trivial
    · exact steady_look hd fun _ => .inl trivial
  | enqueue =>
    refine steady_lock (steady_look hd fun d' => ?_)
    split
    · trivial
    · exact steady_look hd fun _ => .inl trivial
  | poll => exact steady_lock (steady_look hd fun _ => steady_look hd fun _ => trivial)
  | set => exact steady_lock (steady_storeWords (settled_end _ _) _ hd)
  | get =>
    exact steady_lock (settled_loadWords (fun _ => settled_end _ _ _) _ _).steady
  | clear => exact steady_lock (steady_storeWords (settled_end _ _) _ hd)
  | reset => exact steady_lock (steady_lock (steady_clearWords (fun _ _ => .inl trivial) hd))

end Steady

/-! ## Steps outside the sections -/

section Outside

variable {d a : Device} {ch : Choice} {woken : Bool}

theorem Near.disconnected (h : Near d a) (hd : isDisconnected d.fault = true) :
    a.fault.type = faultDisconnect := by
  have ht : d.fault.type = faultDisconnect := of_decide_eq_true hd
  rcases h.type with heq | hnone
  · rw [← heq, ht]
  · rw [ht] at hnone
    cases hnone

theorem Near.pollFaultMask (h : Near d a) {mask : PollMask}
    (hm : pollFaultMask d.fault = some mask) : pollFaultMask a.fault = some mask := by
  rcases h.type with heq | hnone
  · rw [← hm, Kernel.pollFaultMask, Kernel.pollFaultMask, heq]
  · rw [Kernel.pollFaultMask, hnone] at hm
    cases hm

theorem ReadMove.outside {args : ReadArgs} {pc : ReadPc} {e : Effect (Ctl ReadPc ReadResult)}
    (h : ReadMove args d ch woken pc e) (hout : readSection ch args pc = none)
    (hc : args.Wf (.run pc)) :
    AtomicStep a (.read args (.run pc)) ⟨a, e.wake, e.woken, .read args e.ctl⟩ := by
  cases h with
  | zero h0 => exact .effect rfl (.inl rfl) rfl (.read (.zero h0))
  | sampleDelay => cases hout
  | sampleFail => cases hout
  | samplePass => cases hout
  | delayInterrupted => exact .effect rfl (.inl rfl) rfl (.read (.interrupted (.inr rfl)))
  | delayFail hr => exact absurd hc.2 hr
  | lockInterrupted => exact .effect rfl (.inl rfl) rfl (.read (.interrupted (.inl rfl)))
  | again hs => simp [readSection, hs] at hout
  | block hs => simp [readSection, hs] at hout
  | dequeue hs => simp [readSection, hs] at hout
  | copyFault hs => simp [readSection, hs] at hout
  | waitInterrupted => exact .effect rfl (.inl rfl) rfl (.read (.interrupted (.inr rfl)))
  | _ => exact .quiet rfl rfl (.inl rfl)

theorem WriteMove.outside {args : WriteArgs} {pc : WritePc} {e : Effect (Ctl WritePc Int)}
    (h : WriteMove args d ch woken pc e) (hout : writeSection ch args pc = none) (hn : Near d a)
    (htries : (Call.write args (.run pc)).Tries) :
    AtomicStep a (.write args (.run pc)) ⟨a, e.wake, e.woken, .write args e.ctl⟩ := by
  cases h with
  | zero h0 => exact .effect rfl (.inl rfl) rfl (.write (.zero h0))
  | gone hg => exact .effect rfl (.inl rfl) rfl (.write (.gone (hn.disconnected hg)))
  | again hfull =>
    have hlen : fifoSize ≤ a.fifo.length := by
      rw [← hn.fifo]
      exact of_decide_eq_true hfull
    exact .effect rfl (.inl rfl) rfl (.write (.again htries hlen))
  | waitInterrupted => exact .effect rfl (.inl rfl) rfl (.write (.interrupted (.inr rfl)))
  | lockInterrupted => exact .effect rfl (.inl rfl) rfl (.write (.interrupted (.inl rfl)))
  | lockedAgain hs => simp [writeSection, hs] at hout
  | lockedRestart hs => simp [writeSection, hs] at hout
  | enqueue hs => simp [writeSection, hs] at hout
  | copyFault hs => simp [writeSection, hs] at hout
  | _ => exact .quiet rfl rfl (.inl rfl)

/-- Of the steps of a poll outside its section, one looks at the record. -/
theorem pollStep_outside {events : PollMask} {pc : PollPc} {e : Effect (Ctl PollPc PollResult)}
    (h : pollStep events d ch woken pc = some e) (hout : ∀ t, pc ≠ .sampleFifo t)
    (hn : Near d a) :
    AtomicStep a (.poll events (.run pc)) ⟨a, e.wake, e.woken, .poll events e.ctl⟩ := by
  have hsame : (∀ t, pc ≠ .sampleFault t) →
      pollStep events a ch woken pc = some ⟨a, e.wake, e.woken, e.ctl⟩ := by
    intro hfault
    cases pc with
    | sampleFault t => exact absurd rfl (hfault t)
    | sampleFifo t => exact absurd rfl (hout t)
    | registerRead => cases h; rfl
    | registerWrite => cases h; rfl
    | _ =>
      simp only [pollStep, goto] at h ⊢
      split_ifs at h ⊢ <;> cases h <;> rfl
  cases pc with
  | sampleFault t =>
    simp only [pollStep] at h
    split at h <;> rw [goto_eq_some] at h <;> subst h
    · next hm => exact .effect rfl (.inl rfl) rfl (.poll (.fault (hn.pollFaultMask hm)))
    · exact .quiet rfl rfl (.inl rfl)
  | sampleFifo t => exact absurd rfl (hout t)
  | _ => exact pollStep_atomic (hsame fun t => by simp)

theorem IoctlMove.outside {cmd : IoctlCmd} {pc : IoctlPc} {e : Effect (Ctl IoctlPc IoctlResult)}
    {order : WordOrder} (h : IoctlMove cmd d woken pc e) (hout : ioctlSection order cmd pc = none)
    (hc : cmd.Wf (.run pc)) :
    AtomicStep a (.ioctl cmd (.run pc)) ⟨a, e.wake, e.woken, .ioctl cmd e.ctl⟩ := by
  cases h with
  | setUnreadable hcmd =>
    subst hcmd
    exact .effect rfl (.inl rfl) rfl (.ioctl .unreadable)
  | setRefused hcmd hv =>
    subst hcmd
    exact .effect rfl (.inl rfl) rfl (.ioctl (.refused hv))
  | setAccepted => exact .quiet rfl rfl (.inl rfl)
  | get hcmd => simp [ioctlSection, hcmd] at hout
  | clear hcmd => simp [ioctlSection, hcmd] at hout
  | reset hcmd => simp [ioctlSection, hcmd] at hout
  | other hcmd =>
    subst hcmd
    exact .effect rfl (.inl rfl) rfl (.ioctl .other)
  | store => cases hout
  | outUnwritable =>
    obtain ⟨hcmd, -⟩ := hc
    subst hcmd
    exact .effect rfl (.inr rfl) rfl (.ioctl .unwritable)
  | out => exact .quiet rfl rfl (.inl rfl)
  | wakeRead => exact .quiet rfl rfl (.inl rfl)
  | wakeWrite => exact .quiet rfl rfl (.inl rfl)

/-- A step outside the sections is one at the atomic device. -/
theorem Call.step_outside {c : Call} {e : Effect Call} {order : WordOrder}
    (h : c.step d ch woken = some e) (hout : sectionOf ch order c = none) (hn : Near d a)
    (hc : c.Wf) (htries : c.Tries) : AtomicStep a c ⟨a, e.wake, e.woken, e.ctl⟩ := by
  cases c with
  | read args ctl =>
    obtain ⟨f, hf, rfl⟩ := Option.map_eq_some_iff.mp h
    cases ctl with
    | run pc => exact (readStep_move hf).outside hout hc
    | exit res => cases goto_eq_some.mp hf; exact .ret rfl rfl rfl rfl rfl
    | returned res => cases hf
  | write args ctl =>
    obtain ⟨f, hf, rfl⟩ := Option.map_eq_some_iff.mp h
    cases ctl with
    | run pc => exact (writeStep_move hf).outside hout hn htries
    | exit res => cases goto_eq_some.mp hf; exact .ret rfl rfl rfl rfl rfl
    | returned res => cases hf
  | poll events ctl =>
    obtain ⟨f, hf, rfl⟩ := Option.map_eq_some_iff.mp h
    cases ctl with
    | run pc => exact pollStep_outside hf (fun t ht => by simp [sectionOf, ht] at hout) hn
    | exit res => cases goto_eq_some.mp hf; exact .ret rfl rfl rfl rfl rfl
    | returned res => cases hf
  | ioctl cmd ctl =>
    obtain ⟨f, hf, rfl⟩ := Option.map_eq_some_iff.mp h
    cases ctl with
    | run pc => exact (ioctlStep_move hf).outside hout hc
    | exit res => cases goto_eq_some.mp hf; exact .ret rfl rfl rfl rfl rfl
    | returned res => cases hf

end Outside

/-! ## Histories -/

theorem Begins.exiting {ch : Choice} {order : WordOrder} {c : Call} {p : Section}
    (h : Begins ch order c p) : c.exiting = none := by
  cases h <;> rfl

/-- What a move shows to the callers, as `moveEvents`. -/
def lockedEvents (m : Move Locked LockLabel) : List (Event Nat Op Result) :=
  match m.label with
  | .invoke op => [.invoke m.pre.sys.callers.length op]
  | .step i _ _ => (((m.pre.sys.callAt i).bind Call.exiting).map (Event.respond i)).toList

def lockedHistory (tr : List (Move Locked LockLabel)) : List (Event Nat Op Result) :=
  tr.flatMap lockedEvents

/-! ## The atomic system -/

/-- The system `t` of the atomic device: a call whose section has taken effect
stands there where the section leaves it, any other call where it stands. -/
structure Shadow (work : Nat → Device → Device × Call) (s : Locked) (t : Sys) : Prop where
  count : t.callers.length = s.sys.callers.length
  glanced : Glanced glances s.owner s.sys.dev t.dev s.inside work
  begun : ∀ i p, s.inside i = some p → ∃ c ch order q, s.sys.callAt i = some c ∧
    Begins ch order c q ∧ work i = q.solo
  untouched : ∀ i, (∀ p, s.inside i = some p → ¬ glances.Effective p s.sys.dev) →
    t.callAt i = s.sys.callAt i
  effective : ∀ i p, s.inside i = some p → glances.Effective p s.sys.dev →
    t.callAt i = some (p.solo s.sys.dev).2
  inv : t.Inv
  tries : ∀ c ∈ t.callers, c.call.Tries

theorem Sys.length_after (s : Sys) (i : Nat) (e : Effect Call) :
    (s.after i e).callers.length = s.callers.length := by
  simp [Sys.after]

namespace Shadow

variable {work : Nat → Device → Device × Call} {s : Locked} {t : Sys} {i : Nat}

theorem fresh (work : Nat → Device → Device × Call) : Shadow work Locked.fresh Sys.fresh where
  count := rfl
  glanced := Glanced.idle glances _ work
  begun _ _ h := by simp [Locked.fresh] at h
  untouched _ _ := rfl
  effective _ _ h := by simp [Locked.fresh] at h
  inv := Sys.fresh_inv
  tries := by simp [Sys.fresh]

theorem invoke (h : Shadow work s t) (op : Op) :
    Shadow work { s with sys := s.sys.invoked op } (t.invoked op) where
  count := by simp [Sys.invoked, h.count]
  glanced := h.glanced
  begun i p hi := by
    obtain ⟨c, ch, order, q, hc, hq, hw⟩ := h.begun i p hi
    obtain ⟨b, hb, hbc⟩ := Option.map_eq_some_iff.mp hc
    refine ⟨c, ch, order, q, ?_, hq, hw⟩
    rw [Sys.callAt_of (Sys.getElem?_invoked op hb), hbc]
  untouched i hi := by
    show (t.invoked op).callAt i = (s.sys.invoked op).callAt i
    rw [Sys.callAt_invoked, Sys.callAt_invoked, h.count, h.untouched i hi]
  effective i p hi heff := by
    have hold := h.effective i p hi heff
    have hne : i ≠ t.callers.length := by
      rintro rfl
      simp [Sys.callAt] at hold
    rw [Sys.callAt_invoked, if_neg hne, hold]
    rfl
  inv := h.inv.step (l := .invoke op) rfl
  tries := Sys.tries_step (l := .invoke op) h.tries rfl

/-- A call that is inside a section gives no result to its caller. -/
theorem events (h : Shadow work s t) {p : Section} (hi : s.inside i = some p) (ch : Choice)
    (order : WordOrder) (u : Locked) : lockedEvents ⟨s, .step i ch order, u⟩ = [] := by
  obtain ⟨c, ch', order', q, hc, hq, -⟩ := h.begun i p hi
  simp [lockedEvents, hc, hq.exiting]

theorem enter (h : Shadow work s t) {c : Call} {p : Section} {ch : Choice} {order : WordOrder}
    (hc : s.sys.callAt i = some c) (hp : Begins ch order c p) (hfree : ∀ l, s.owner l ≠ some i)
    (hi : s.inside i = none) :
    Shadow (Function.update work i p.solo)
      { s with inside := Function.update s.inside i (some p) } t where
  count := h.count
  glanced := h.glanced.enter hfree hp.locking hp.steady
  begun j q hj := by
    rcases update_eq_some.mp hj with ⟨rfl, -⟩ | ⟨hij, hj⟩
    · exact ⟨c, ch, order, p, hc, hp, Function.update_self ..⟩
    · obtain ⟨c', ch', order', q', hc', hq', hw'⟩ := h.begun j q hj
      refine ⟨c', ch', order', q', hc', hq', ?_⟩
      rw [Function.update_of_ne hij, hw']
  untouched j hj := by
    refine h.untouched j fun q hq => hj q (update_eq_some.mpr (.inr ⟨?_, hq⟩))
    rintro rfl
    cases hi.symm.trans hq
  effective j q hj heff := by
    rcases update_eq_some.mp hj with ⟨-, hq⟩ | ⟨-, hj⟩
    · cases hq
      cases heff.1.symm.trans hp.locking
    · exact h.effective j q hj heff
  inv := h.inv
  tries := h.tries

theorem leave (h : Shadow work s t) {b : Caller} {c : Call} (hi : s.inside i = some (.done c))
    (hb : s.sys.callers[i]? = some b) :
    Shadow work { s with
      sys := s.sys.after i ⟨s.sys.dev, none, b.woken, c⟩
      inside := Function.update s.inside i none } t where
  count := by rw [h.count, Sys.length_after]
  glanced := h.glanced.leave
  begun j q hj := by
    rcases update_eq_some.mp hj with ⟨-, hq⟩ | ⟨hij, hj⟩
    · cases hq
    · obtain ⟨c', ch', order', q', hc', hq', hw'⟩ := h.begun j q hj
      refine ⟨c', ch', order', q', ?_, hq', hw'⟩
      rw [Sys.callAt_after hb, if_neg (Ne.symm hij), hc']
  untouched j hj := by
    show t.callAt j = (s.sys.after i _).callAt j
    rw [Sys.callAt_after hb]
    by_cases hij : i = j
    · subst hij
      rw [if_pos rfl]
      exact h.effective i _ hi ⟨rfl, trivial⟩
    · rw [if_neg hij]
      exact h.untouched j fun q hq => hj q (update_eq_some.mpr (.inr ⟨Ne.symm hij, hq⟩))
  effective j q hj heff := by
    rcases update_eq_some.mp hj with ⟨-, hq⟩ | ⟨-, hj⟩
    · cases hq
    · exact h.effective j q hj heff
  inv := h.inv
  tries := h.tries

section Advance

variable {c : Device} {p p' : Section} {dev : Device} {owner : Mutex → Option Nat}
  (hc : Coherent guards s.owner s.sys.dev c s.inside) (hi : s.inside i = some p)
  (hadv : p.advance i s.owner s.sys.dev = some (dev, owner, p'))

include hc hi hadv

/-- After a statement: the others stand where they stood. -/
theorem moved (h : Shadow work s t) {t' : Sys} (hcount : t'.callers.length = t.callers.length)
    (hother : ∀ j, j ≠ i → t'.callAt j = t.callAt j)
    (hg : Glanced glances owner dev t'.dev (Function.update s.inside i (some p')) work)
    (huntouched : ¬ glances.Effective p' dev → t'.callAt i = s.sys.callAt i)
    (heffective : glances.Effective p' dev → t'.callAt i = some (p'.solo dev).2)
    (hinv : t'.Inv) (htries : ∀ c ∈ t'.callers, c.call.Tries) :
    Shadow work
      { sys := { s.sys with dev := dev }, owner, inside := Function.update s.inside i (some p') }
      t' where
  count := by rw [hcount, h.count]
  glanced := hg
  begun j q hj := by
    rcases update_eq_some.mp hj with ⟨rfl, -⟩ | ⟨-, hj⟩
    · exact h.begun j p hi
    · exact h.begun j q hj
  untouched j hj := by
    by_cases hij : j = i
    · subst hij
      exact huntouched (hj p' (Function.update_self ..))
    · rw [hother j hij]
      refine h.untouched j fun q hq heff => ?_
      have hkept := (Glanced.effective_other hc hi hadv hij hq).mp heff
      exact hj q (update_eq_some.mpr (.inr ⟨hij, hq⟩)) hkept
  effective j q hj heff := by
    rcases update_eq_some.mp hj with ⟨rfl, hq⟩ | ⟨hij, hq⟩
    · cases hq
      exact heffective heff
    · have hold := (Glanced.effective_other hc hi hadv hij hq).mpr heff
      have hsolo := (hc.solo_other hi hadv hij hq heff.1).1
      rw [hother j hij, h.effective j q hq hold, hsolo]
  inv := hinv
  tries := htries

/-- A statement leaves the atomic system, or there the whole section is one
step. -/
theorem advance (h : Shadow work s t) :
    ∃ t', (t' = t ∨ ∃ b ch, t.callers[i]? = some b ∧ b.call.exiting = none ∧
        t.step (.step i ch) = some t') ∧
      Shadow work
        { sys := { s.sys with dev := dev }, owner, inside := Function.update s.inside i (some p') }
        t' := by
  rcases h.glanced.advance hc hi hadv with ⟨hiff, hg⟩ | ⟨hnot, heff, hres, hg⟩
  · refine ⟨t, .inl rfl, h.moved hc hi hadv rfl (fun _ _ => rfl) hg (fun hnot => ?_)
      (fun heff => ?_) h.inv h.tries⟩
    · refine h.untouched i fun q hq heff => hnot (hiff.mp ?_)
      obtain rfl : p = q := Option.some.inj (hi.symm.trans hq)
      exact heff
    · have hold := hiff.mpr heff
      rw [h.effective i p hi hold, Critical.advance_solo hadv hold.1]
  · obtain ⟨call, ch, order, q, hcall, hq, hwork⟩ := h.begun i p hi
    have hat : t.callAt i = some call := by
      rw [h.untouched i fun q hq heff => hnot ?_, hcall]
      obtain rfl : p = q := Option.some.inj (hi.symm.trans hq)
      exact heff
    obtain ⟨b, hb, rfl⟩ := Option.map_eq_some_iff.mp hat
    have hstep : t.step (.step i ch) =
        some (t.after i ⟨(work i t.dev).1, none, b.woken, (work i t.dev).2⟩) := by
      simp only [Sys.step, hb, hwork, hq.solo]
      rfl
    refine ⟨_, .inr ⟨b, ch, hb, hq.exiting, hstep⟩, h.moved hc hi hadv ?_ ?_ hg ?_ ?_ ?_ ?_⟩
    · exact Sys.length_after _ _ _
    · intro j hij
      rw [Sys.callAt_after hb, if_neg (Ne.symm hij)]
    · exact fun hnot' => absurd heff hnot'
    · intro _
      rw [Sys.callAt_after hb, if_pos rfl, hres]
    · exact h.inv.step hstep
    · exact Sys.tries_step h.tries hstep

end Advance

/-- A step outside the sections. -/
theorem outside (h : Shadow work s t) {b : Caller} {e : Effect Call} {ch : Choice}
    {order : WordOrder} (hi : s.inside i = none) (hb : s.sys.callers[i]? = some b)
    (hout : sectionOf ch order b.call = none) (he : b.call.step s.sys.dev ch b.woken = some e) :
    ∃ b', t.callers[i]? = some b' ∧ b'.call = b.call ∧
      AtomicStep t.dev b.call ⟨t.dev, e.wake, e.woken, e.ctl⟩ ∧
      Shadow work { s with sys := s.sys.after i e }
        (t.after i ⟨t.dev, e.wake, e.woken, e.ctl⟩) := by
  have hmove := Call.step_move he
  have hdev : e.dev = s.sys.dev := hmove.dev_outside hout
  have hat : t.callAt i = some b.call := by
    rw [h.untouched i fun p hp => ?_, Sys.callAt_of hb]
    cases hi.symm.trans hp
  obtain ⟨b', hb', hcall⟩ := Option.map_eq_some_iff.mp hat
  have hmem := List.mem_of_getElem? hb'
  have hwf : b.call.Wf := hcall ▸ h.inv.calls b' hmem
  have htries : b.call.Tries := hcall ▸ h.tries b' hmem
  have hnear := near_iff.mp h.glanced.near
  refine ⟨b', hb', hcall, Call.step_outside he hout hnear hwf htries, ?_⟩
  refine ⟨?_, ?_, fun j p hj => ?_, fun j hj => ?_, fun j p hj heff => ?_, ?_, fun c hc => ?_⟩
  · rw [Sys.length_after, Sys.length_after, h.count]
  · show Glanced glances s.owner e.dev t.dev s.inside work
    rw [hdev]
    exact h.glanced
  · obtain ⟨c', ch', order', q, hc', hq, hw⟩ := h.begun j p hj
    have hij : i ≠ j := by
      rintro rfl
      cases hi.symm.trans hj
    refine ⟨c', ch', order', q, ?_, hq, hw⟩
    rw [Sys.callAt_after hb, if_neg hij, hc']
  · have hj' : ∀ p, s.inside j = some p → ¬ glances.Effective p s.sys.dev := by
      rw [← hdev]
      exact hj
    show (t.after i _).callAt j = (s.sys.after i e).callAt j
    rw [Sys.callAt_after hb', Sys.callAt_after hb, h.untouched j hj']
  · have hij : i ≠ j := by
      rintro rfl
      cases hi.symm.trans hj
    have heff' : glances.Effective p s.sys.dev := by
      rw [← hdev]
      exact heff
    show (t.after i _).callAt j = some (p.solo e.dev).2
    rw [Sys.callAt_after hb', if_neg hij, h.effective j p hj heff', hdev]
  · refine ⟨h.inv.fault, h.inv.fifo, fun c hc => ?_⟩
    rcases Sys.mem_after hc with heq | ⟨c', hc', heq⟩ <;> rw [heq]
    · exact hmove.wf_outside hout hwf
    · exact h.inv.calls c' hc'
  · rcases Sys.mem_after hc with heq | ⟨c', hc', heq⟩ <;> rw [heq]
    · exact hmove.tries
    · exact h.tries c' hc'

end Shadow

/-! ## Every run is linearizable -/

theorem lockedHistory_concat (tr : List (Move Locked LockLabel)) (m : Move Locked LockLabel) :
    lockedHistory (tr ++ [m]) = lockedHistory tr ++ lockedEvents m := by
  simp [lockedHistory]

/-- One move of the statements, and what it is to the atomic system. -/
theorem Shadow.step {work : Nat → Device → Device × Call} {s u : Locked} {t : Sys} {c : Device}
    {l : LockLabel} {H : List (Event Nat Op Result)} {L : List (Entry Nat Op Result)}
    (h : Shadow work s t) (hc : Coherent guards s.owner s.sys.dev c s.inside)
    (hL : Linearized (fun _ => True) H L t) (hl : LockedStep s l u) :
    ∃ work' t' L', Shadow work' u t' ∧
      Linearized (fun _ => True) (H ++ lockedEvents ⟨s, l, u⟩) L' t' := by
  cases hl with
  | @invoke op =>
    refine ⟨work, t.invoked op, L, h.invoke op, ?_⟩
    simp only [lockedEvents, ← h.count]
    exact hL.invoke op
  | @leave i ch order b r hi hb =>
    refine ⟨work, t, L, h.leave hi hb, ?_⟩
    rw [h.events hi, List.append_nil]
    exact hL
  | @advance i ch order p dev owner p' hi hadv =>
    obtain ⟨t', hcase, hs⟩ := h.advance hc hi hadv
    rw [h.events hi, List.append_nil]
    rcases hcase with rfl | ⟨b, ch', hb, hexit, hstep⟩
    · exact ⟨work, t', L, hs, hL⟩
    · obtain ⟨L', hL'⟩ := hL.step h.inv h.tries trivial hstep
      rw [moveEvents_step hb, hexit] at hL'
      exact ⟨work, t', L', hs, by simpa using hL'⟩
  | @enter i ch order call p hi hcall hp =>
    have hbegins := sectionOf_begins hp
    refine ⟨_, t, L, h.enter hcall hbegins (hc.outside i hi) hi, ?_⟩
    simpa [lockedEvents, hcall, hbegins.exiting] using hL
  | @outside i ch order b e hi hb hout he =>
    obtain ⟨b', hb', hcall, hatomic, hs⟩ := h.outside hi hb hout he
    obtain ⟨hop, hlive⟩ := Call.step_op he
    rw [← hcall] at hatomic hop hlive
    obtain ⟨L', hL'⟩ :=
      hL.atomic (e := ⟨t.dev, e.wake, e.woken, e.ctl⟩) hb' hop hlive trivial hatomic
    refine ⟨work, _, L', hs, ?_⟩
    simpa [lockedEvents, Sys.callAt_of hb, hcall] using hL'

theorem lockedMachine_shadow {tr : List (Move Locked LockLabel)} {s : Locked}
    (h : lockedMachine.Run tr s) : ∃ work t L, Shadow work s t ∧
      Linearized (fun _ => True) (lockedHistory tr) L t := by
  induction h with
  | start hs =>
    cases hs
    exact ⟨fun _ => clearSection.solo, _, [], .fresh _, .fresh⟩
  | @snoc tr s l u hr hl ih =>
    obtain ⟨work, t, L, hs, hL⟩ := ih
    rw [lockedHistory_concat]
    exact hs.step (lockedMachine_serialized hr).coherent hL (Locked.step_cases hl)

/-- In every interleaving of the statements of any calls, what the callers
see is a sequence of whole operations. The device that it ends in is there
where nobody holds the mutex. -/
theorem statements_linearizable {tr : List (Move Locked LockLabel)} {s : Locked}
    (h : lockedMachine.Run tr s) : ∃ d L,
      Linearization sequentialDevice .fresh (lockedHistory tr) L d ∧ Canonical d.fault ∧
      (s.owner .faultLock = none → s.sys.dev.fault = d.fault) ∧
      (s.owner .fifoLock = none → s.sys.dev.fifo = d.fifo) := by
  obtain ⟨work, t, L, hs, hL⟩ := lockedMachine_shadow h
  exact ⟨t.dev, L, hL.linearization, hs.inv.fault, hs.glanced.free .faultLock,
    hs.glanced.free .fifoLock⟩

/-- A `SET_FAULT` has stored the type `DISCONNECT` and no other word when a
write finds the device gone and returns. -/
def goneEarly : List LockLabel :=
  [.invoke (.ioctl (.setFault ⟨faultDisconnect, 0, 0, 0⟩)), .invoke (.write ⟨[7], true⟩),
    .step 0 { reach := 16 } declared, .step 0 {} declared, .step 0 {} declared,
    .step 0 {} declared, .step 1 {} declared, .step 1 {} declared, .step 1 {} declared]

theorem statements_linearizable_goneEarly : ∃ tr s, lockedMachine.Run tr s ∧
    lockedHistory tr = [.invoke 0 (.ioctl (.setFault ⟨faultDisconnect, 0, 0, 0⟩)),
      .invoke 1 (.write ⟨[7], true⟩), .respond 1 (.write (-ENODEV))] ∧
    s.owner .faultLock = some 0 ∧ ∃ d L,
      Linearization sequentialDevice .fresh (lockedHistory tr) L d ∧ Canonical d.fault ∧
      (s.owner .faultLock = none → s.sys.dev.fault = d.fault) ∧
      (s.owner .fifoLock = none → s.sys.dev.fifo = d.fifo) := by
  have hrun : (lockedMachine.replay .fresh goneEarly).map
      (fun p => (lockedHistory p.1, p.2.owner .faultLock)) =
        some ([.invoke 0 (.ioctl (.setFault ⟨faultDisconnect, 0, 0, 0⟩)),
          .invoke 1 (.write ⟨[7], true⟩), .respond 1 (.write (-ENODEV))], some 0) := rfl
  obtain ⟨tr, s, hr, heq⟩ := Lts.exists_run_of_replay (M := lockedMachine) rfl hrun
  simp only [Prod.mk.injEq] at heq
  exact ⟨tr, s, hr, heq.1, heq.2, statements_linearizable hr⟩

end VDevLab.Kernel
