import VDevLab.Kernel.Locks

/-!
# The module with its mutexes

Any number of calls, with the two mutexes and the statements of the sections
as steps. Whatever the interleaving, the sections can be put in one order, the
one in which they had their last mutex, such that each of them is one step of
the machine on the device that the sections before it left. While a mutex is
free, what it guards is what that device holds.

No interleaving ends with calls that wait for each other's mutex.
-/

namespace VDevLab.Kernel

/-! ## The system -/

/-- The calls and the device, who holds which mutex, and the rest of the
section of every call that is inside one. -/
structure Locked where
  sys : Sys
  owner : Mutex → Option Nat
  inside : Nat → Option Section

inductive LockLabel
  | invoke (op : Op)
  | step (i : Nat) (ch : Choice) (order : WordOrder)

/-- Call `i` is through with its section and goes on as `c`. -/
def Locked.leave (s : Locked) (i : Nat) (c : Call) : Option Locked :=
  (s.sys.callers[i]?).map fun b =>
    { s with
      sys := s.sys.after i ⟨s.sys.dev, none, b.woken, c⟩
      inside := Function.update s.inside i none }

/-- The next statement of the section `p` of call `i`. -/
def Locked.advance (s : Locked) (i : Nat) (p : Section) : Option Locked :=
  (p.advance i s.owner s.sys.dev).map fun (dev, owner, p') =>
    { sys := { s.sys with dev := dev }, owner, inside := Function.update s.inside i (some p') }

def Locked.step (s : Locked) : LockLabel → Option Locked
  | .invoke op => some { s with sys := s.sys.invoked op }
  | .step i ch order =>
      match s.inside i with
      | some (.done c) => s.leave i c
      | some p => s.advance i p
      | none =>
          match (s.sys.callAt i).bind (sectionOf ch order) with
          | some p => some { s with inside := Function.update s.inside i (some p) }
          | none => (s.sys.step (.step i ch)).map fun t => { s with sys := t }

def Locked.fresh : Locked := ⟨.fresh, fun _ => none, fun _ => none⟩

/-- The loaded module, with its mutexes. -/
def lockedMachine : Lts Locked LockLabel := ⟨(· = Locked.fresh), Locked.step⟩

/-- The steps: a new call, or a caller that leaves its section, makes a
statement of it, begins one, or moves outside. -/
inductive LockedStep (s : Locked) : LockLabel → Locked → Prop
  | invoke {op} : LockedStep s (.invoke op) { s with sys := s.sys.invoked op }
  | leave {i ch order b c} : s.inside i = some (.done c) → s.sys.callers[i]? = some b →
      LockedStep s (.step i ch order)
        { s with
          sys := s.sys.after i ⟨s.sys.dev, none, b.woken, c⟩
          inside := Function.update s.inside i none }
  | advance {i ch order p dev owner p'} : s.inside i = some p →
      p.advance i s.owner s.sys.dev = some (dev, owner, p') →
      LockedStep s (.step i ch order)
        { sys := { s.sys with dev := dev }, owner, inside := Function.update s.inside i (some p') }
  | enter {i ch order c p} : s.inside i = none → s.sys.callAt i = some c →
      sectionOf ch order c = some p →
      LockedStep s (.step i ch order) { s with inside := Function.update s.inside i (some p) }
  | outside {i ch order b e} : s.inside i = none → s.sys.callers[i]? = some b →
      sectionOf ch order b.call = none → b.call.step s.sys.dev ch b.woken = some e →
      LockedStep s (.step i ch order) { s with sys := s.sys.after i e }

theorem Locked.step_cases {s t : Locked} {l : LockLabel} (h : s.step l = some t) :
    LockedStep s l t := by
  cases l with
  | invoke op =>
    obtain rfl := Option.some.inj h
    exact .invoke
  | step i ch order =>
    cases hi : s.inside i with
    | some p =>
      cases p with
      | done c =>
        simp only [Locked.step, hi, Locked.leave, Option.map_eq_some_iff] at h
        obtain ⟨b, hb, rfl⟩ := h
        exact .leave hi hb
      | _ =>
        simp only [Locked.step, hi, Locked.advance, Option.map_eq_some_iff] at h
        obtain ⟨⟨dev, owner, p'⟩, hadv, rfl⟩ := h
        exact .advance hi hadv
    | none =>
      simp only [Locked.step, hi] at h
      split at h
      · next p hp =>
        obtain rfl := Option.some.inj h
        obtain ⟨c, hc, hp⟩ := Option.bind_eq_some_iff.mp hp
        exact .enter hi hc hp
      · next hnone =>
        obtain ⟨u, hu, rfl⟩ := Option.map_eq_some_iff.mp h
        rcases Sys.step_effect hu with ⟨op, hop, -⟩ | ⟨j, ch', b, e, hl, hb, he, rfl⟩
        · cases hop
        · cases hl
          rw [Sys.callAt_of hb] at hnone
          exact .outside hi hb hnone he

/-! ## The serial order -/

/-- A section with its last mutex: the call that took it, where that call
stands, and where the section leaves it. -/
structure Taken where
  caller : Nat
  call : Call
  result : Call

/-- When a section takes its last mutex, all of it is done to the serial
device. -/
def serialStep (acc : Device × List Taken) (m : Move Locked LockLabel) : Device × List Taken :=
  match m.label with
  | .invoke _ => acc
  | .step i _ _ =>
      match m.pre.inside i, m.pre.sys.callAt i with
      | some p, some c =>
          if p.lockPoint then ((p.solo acc.1).1, acc.2 ++ [⟨i, c, (p.solo acc.1).2⟩]) else acc
      | _, _ => acc

/-- The serial device and the sections done to it, in the order in which they
had their last mutex. -/
def serial (tr : List (Move Locked LockLabel)) : Device × List Taken :=
  tr.foldl serialStep (.fresh, [])

/-- Each section is one step of the machine. -/
inductive SerialRun : Device → List Taken → Device → Prop
  | start {d} : SerialRun d [] d
  | snoc {d order d' t d''} : SerialRun d order d' →
      (∃ ch, ∀ woken, t.call.step d' ch woken = some ⟨d'', none, woken, t.result⟩) →
      SerialRun d (order ++ [t]) d''

/-- Where call `i` stood before its section and where it went on, if the move
leaves a section of call `i`. -/
def completedMove (i : Nat) (m : Move Locked LockLabel) : List (Call × Call) :=
  match m.label with
  | .invoke _ => []
  | .step j _ _ =>
      match m.pre.inside j, m.pre.sys.callAt j with
      | some (.done c), some b => if j = i then [(b, c)] else []
      | _, _ => []

/-- The sections that call `i` is through with. -/
def completed (i : Nat) (tr : List (Move Locked LockLabel)) : List (Call × Call) :=
  tr.flatMap (completedMove i)

/-- The sections of call `i` in the serial order. -/
def takenBy (i : Nat) (order : List Taken) : List (Call × Call) :=
  (order.filter (·.caller = i)).map fun t => (t.call, t.result)

/-- The section of call `i` that had its last mutex and is not through. -/
def Locked.pending (s : Locked) (i : Nat) : List (Call × Call) :=
  match s.inside i, s.sys.callAt i with
  | some p, some c => if p.locking then [] else [(c, (p.solo s.sys.dev).2)]
  | _, _ => []

@[simp] theorem serial_concat (tr : List (Move Locked LockLabel)) (m : Move Locked LockLabel) :
    serial (tr ++ [m]) = serialStep (serial tr) m := by
  simp [serial]

@[simp] theorem completed_concat (i : Nat) (tr : List (Move Locked LockLabel))
    (m : Move Locked LockLabel) :
    completed i (tr ++ [m]) = completed i tr ++ completedMove i m := by
  simp [completed]

theorem takenBy_concat (i : Nat) (order : List Taken) (t : Taken) :
    takenBy i (order ++ [t]) =
      takenBy i order ++ if t.caller = i then [(t.call, t.result)] else [] := by
  by_cases h : t.caller = i <;> simp [takenBy, List.filter_append, h]

theorem Begins.locking {ch : Choice} {order : WordOrder} {c : Call} {p : Section}
    (h : Begins ch order c p) : p.locking = true := by
  cases h <;> rfl

/-! ## The invariant -/

/-- The relation to the serial execution: the data of the mutexes, the
sections taken so far, where each section came from, and its result. -/
structure Serialized (tr : List (Move Locked LockLabel)) (s : Locked) : Prop where
  coherent : Coherent guards s.owner s.sys.dev (serial tr).1 s.inside
  run : SerialRun .fresh (serial tr).2 (serial tr).1
  begun : ∀ i p, s.inside i = some p → ∃ c, s.sys.callAt i = some c ∧
    (p.locking = true → ∃ ch order p₀, Begins ch order c p₀ ∧ ∀ d, p.solo d = p₀.solo d)
  tally : ∀ i, takenBy i (serial tr).2 = completed i tr ++ s.pending i

namespace Serialized

variable {tr : List (Move Locked LockLabel)} {s : Locked} {i : Nat} {ch : Choice}
  {order : WordOrder}

theorem start : Serialized [] Locked.fresh where
  coherent := Coherent.idle guards _
  run := .start
  begun _ _ h := nomatch h
  tally _ := rfl

theorem invoke (h : Serialized tr s) (op : Op) :
    Serialized (tr ++ [⟨s, .invoke op, { s with sys := s.sys.invoked op }⟩])
      { s with sys := s.sys.invoked op } := by
  have hcall : ∀ j c, s.sys.callAt j = some c → (s.sys.invoked op).callAt j = some c := by
    intro j c hc
    obtain ⟨b, hb, hbc⟩ := Option.map_eq_some_iff.mp hc
    rw [Sys.callAt_of (Sys.getElem?_invoked op hb), hbc]
  have hserial : serial (tr ++ [⟨s, .invoke op, { s with sys := s.sys.invoked op }⟩]) =
      serial tr := serial_concat _ _
  refine ⟨by rw [hserial]; exact h.coherent, by rw [hserial]; exact h.run,
    fun j p hj => ?_, fun j => ?_⟩
  · obtain ⟨c, hc, hp⟩ := h.begun j p hj
    exact ⟨c, hcall j c hc, hp⟩
  · have hpending : Locked.pending { s with sys := s.sys.invoked op } j = s.pending j := by
      simp only [Locked.pending]
      cases hj : s.inside j with
      | none => rfl
      | some p =>
        obtain ⟨c, hc, -⟩ := h.begun j p hj
        rw [hcall j c hc, hc]
        rfl
    rw [hserial, completed_concat, hpending, completedMove, List.append_nil]
    exact h.tally j

/-- Only the statement that takes the last mutex adds to the serial order. -/
theorem serial_quiet {t : Locked} (hquiet : ∀ p, s.inside i = some p → p.lockPoint = false) :
    serial (tr ++ [⟨s, .step i ch order, t⟩]) = serial tr := by
  rw [serial_concat, serialStep]
  simp only
  split
  · next p c hp hc => rw [hquiet p hp, if_neg Bool.false_ne_true]
  · rfl

/-- What another call is about to complete stays as it is. -/
theorem pending_other {s t : Locked} {j : Nat} (hinside : t.inside j = s.inside j)
    (hcall : t.sys.callAt j = s.sys.callAt j)
    (hdev : ∀ p, s.inside j = some p → p.locking = false →
      (p.solo t.sys.dev).2 = (p.solo s.sys.dev).2) : t.pending j = s.pending j := by
  simp only [Locked.pending, hinside, hcall]
  cases hj : s.inside j with
  | none => rfl
  | some p =>
    cases s.sys.callAt j with
    | none => rfl
    | some c =>
      by_cases hp : p.locking = true
      · simp only [if_pos hp]
      · simp only [if_neg hp, hdev p hj (by simpa using hp)]

theorem leave (h : Serialized tr s) {b : Caller} {c : Call} (hi : s.inside i = some (.done c))
    (hb : s.sys.callers[i]? = some b) {t : Locked}
    (hsys : t.sys = s.sys.after i ⟨s.sys.dev, none, b.woken, c⟩) (howner : t.owner = s.owner)
    (hinside : t.inside = Function.update s.inside i none) :
    Serialized (tr ++ [⟨s, .step i ch order, t⟩]) t := by
  have hserial : serial (tr ++ [⟨s, .step i ch order, t⟩]) = serial tr :=
    serial_quiet fun p hp => by cases hi.symm.trans hp; rfl
  have hcall := fun j => Sys.callAt_after hb ⟨s.sys.dev, none, b.woken, c⟩ j
  rw [← hsys] at hcall
  refine ⟨?_, by rw [hserial]; exact h.run, fun j p hj => ?_, fun j => ?_⟩
  · rw [hserial, hsys, howner, hinside]
    exact h.coherent.leave hi
  · rw [hinside] at hj
    by_cases hij : i = j
    · subst hij
      simp at hj
    · rw [Function.update_of_ne (Ne.symm hij)] at hj
      rw [hcall, if_neg hij]
      exact h.begun j p hj
  · rw [hserial, completed_concat, h.tally j, completedMove]
    simp only [hi, Sys.callAt_of hb]
    by_cases hij : i = j
    · subst hij
      simp [Locked.pending, hinside, hi, Sys.callAt_of hb, Critical.locking, Critical.solo]
    · have hpending : t.pending j = s.pending j := by
        refine pending_other ?_ ?_ fun p _ _ => ?_
        · rw [hinside, Function.update_of_ne (Ne.symm hij)]
        · rw [hcall, if_neg hij]
        · rw [hsys]
          rfl
      rw [hpending, if_neg hij, List.append_nil]

theorem enter (h : Serialized tr s) {c : Call} {p : Section} (hi : s.inside i = none)
    (hc : s.sys.callAt i = some c) (hp : Begins ch order c p) {t : Locked}
    (hsys : t.sys = s.sys) (howner : t.owner = s.owner)
    (hinside : t.inside = Function.update s.inside i (some p)) :
    Serialized (tr ++ [⟨s, .step i ch order, t⟩]) t := by
  have hserial : serial (tr ++ [⟨s, .step i ch order, t⟩]) = serial tr :=
    serial_quiet fun p hp => by cases hi.symm.trans hp
  refine ⟨?_, by rw [hserial]; exact h.run, fun j q hj => ?_, fun j => ?_⟩
  · rw [hserial, hsys, howner, hinside]
    exact h.coherent.enter hi hp.disciplined
  · rw [hinside] at hj
    rw [hsys]
    by_cases hij : i = j
    · subst hij
      rw [Function.update_self, Option.some.injEq] at hj
      subst hj
      exact ⟨c, hc, fun _ => ⟨ch, order, p, hp, fun _ => rfl⟩⟩
    · rw [Function.update_of_ne (Ne.symm hij)] at hj
      exact h.begun j q hj
  · rw [hserial, completed_concat, h.tally j, completedMove]
    simp only [hi, List.append_nil]
    by_cases hij : i = j
    · -- the first statement of a section takes a mutex
      subst hij
      simp [Locked.pending, hinside, hsys, hi, hc, hp.locking]
    · have hpending : t.pending j = s.pending j := by
        refine pending_other ?_ ?_ fun p _ _ => ?_
        · rw [hinside, Function.update_of_ne (Ne.symm hij)]
        · rw [hsys]
        · rw [hsys]
      rw [hpending]

theorem outside (h : Serialized tr s) {b : Caller} {e : Effect Call} (hi : s.inside i = none)
    (hb : s.sys.callers[i]? = some b) (hout : sectionOf ch order b.call = none)
    (he : b.call.step s.sys.dev ch b.woken = some e) {t : Locked}
    (hsys : t.sys = s.sys.after i e) (howner : t.owner = s.owner) (hinside : t.inside = s.inside) :
    Serialized (tr ++ [⟨s, .step i ch order, t⟩]) t := by
  have hserial : serial (tr ++ [⟨s, .step i ch order, t⟩]) = serial tr :=
    serial_quiet fun p hp => by cases hi.symm.trans hp
  have hdev : t.sys.dev = s.sys.dev := by
    rw [hsys]
    exact (Call.step_move he).dev_outside hout
  have hcall := fun j => Sys.callAt_after hb e j
  rw [← hsys] at hcall
  refine ⟨?_, by rw [hserial]; exact h.run, fun j q hj => ?_, fun j => ?_⟩
  · rw [hserial, hdev, howner, hinside]
    exact h.coherent
  · rw [hinside] at hj
    have hij : i ≠ j := by
      rintro rfl
      rw [hi] at hj
      cases hj
    rw [hcall, if_neg hij]
    exact h.begun j q hj
  · rw [hserial, completed_concat, h.tally j, completedMove]
    simp only [hi, List.append_nil]
    by_cases hij : i = j
    · subst hij
      simp [Locked.pending, hinside, hi]
    · have hpending : t.pending j = s.pending j := by
        refine pending_other ?_ ?_ fun p _ _ => by rw [hdev]
        · rw [hinside]
        · rw [hcall, if_neg hij]
      rw [hpending]

/-! ### A statement of a section -/

section Advance

variable {p p' : Section} {c : Call} {dev : Device} {owner : Mutex → Option Nat} {t : Locked}

variable (tr ch order t) in
theorem serial_advance (hi : s.inside i = some p) (hc : s.sys.callAt i = some c) :
    serial (tr ++ [⟨s, .step i ch order, t⟩]) =
      if p.lockPoint then
        ((p.solo (serial tr).1).1, (serial tr).2 ++ [⟨i, c, (p.solo (serial tr).1).2⟩])
      else serial tr := by
  rw [serial_concat, serialStep]
  simp only [hi, hc]

/-- The result of a section is known when it takes its last mutex. -/
theorem pending_advance (h : Serialized tr s) (hi : s.inside i = some p)
    (hc : s.sys.callAt i = some c) (hadv : p.advance i s.owner s.sys.dev = some (dev, owner, p'))
    (hsys : t.sys = { s.sys with dev := dev })
    (hinside : t.inside = Function.update s.inside i (some p')) :
    t.pending i = s.pending i ++
      if p.lockPoint then [(c, (p.solo (serial tr).1).2)] else [] := by
  have hlock := Critical.locking_of_advance hadv (h.coherent.disciplined i p hi)
  have hcall : t.sys.callAt i = some c := by rw [hsys]; exact hc
  have hdev : t.sys.dev = dev := by rw [hsys]
  simp only [Locked.pending, hi, hc, hinside, hcall, Function.update_self, hdev]
  by_cases hpoint : p.lockPoint = true
  · have hp : p.locking = true := Critical.locking_of_lockPoint hpoint
    have hp' : ¬ p'.locking = true := fun hp' => by
      have hnot := (hlock.mp hp').2
      rw [hpoint] at hnot
      cases hnot
    have hresult := (h.coherent.solo_lockPoint hi hadv hpoint).1
    rw [if_pos hp, if_pos hpoint, if_neg hp', hresult, List.nil_append]
  · rw [if_neg hpoint, List.append_nil]
    by_cases hp : p.locking = true
    · rw [if_pos hp, if_pos (hlock.mpr ⟨hp, by simpa using hpoint⟩)]
    · have hp' : ¬ p'.locking = true := fun hp' => hp (hlock.mp hp').1
      have hsolo := Critical.advance_solo hadv (by simpa using hp)
      rw [if_neg hp, if_neg hp', hsolo]

theorem advance (h : Serialized tr s) (hi : s.inside i = some p)
    (hadv : p.advance i s.owner s.sys.dev = some (dev, owner, p'))
    (hsys : t.sys = { s.sys with dev := dev }) (howner : t.owner = owner)
    (hinside : t.inside = Function.update s.inside i (some p')) :
    Serialized (tr ++ [⟨s, .step i ch order, t⟩]) t := by
  obtain ⟨c, hc, hbegun⟩ := h.begun i p hi
  have hserial := serial_advance tr ch order t hi hc
  have hcall : ∀ j, t.sys.callAt j = s.sys.callAt j := fun j => by rw [hsys]; rfl
  have hdev : t.sys.dev = dev := by rw [hsys]
  have hlock := Critical.locking_of_advance hadv (h.coherent.disciplined i p hi)
  refine ⟨?_, ?_, fun j q hj => ?_, fun j => ?_⟩
  · have hserially : (serial (tr ++ [⟨s, .step i ch order, t⟩])).1 = p.serially (serial tr).1 := by
      rw [hserial, Critical.serially]
      split <;> rfl
    rw [hserially, hdev, howner, hinside]
    exact h.coherent.advance hi hadv
  · rw [hserial]
    by_cases hpoint : p.lockPoint = true
    · -- the whole section is done to the serial device: one step of the machine
      obtain ⟨ch₀, order₀, p₀, hp₀, hsolo⟩ := hbegun (Critical.locking_of_lockPoint hpoint)
      rw [if_pos hpoint]
      refine .snoc h.run ⟨ch₀, fun woken => ?_⟩
      rw [hsolo]
      exact hp₀.solo _ _
    · rw [if_neg hpoint]
      exact h.run
  · rw [hinside] at hj
    rw [hcall]
    by_cases hij : i = j
    · subst hij
      rw [Function.update_self, Option.some.injEq] at hj
      subst hj
      refine ⟨c, hc, fun hp' => ?_⟩
      obtain ⟨ch₀, order₀, p₀, hp₀, hsolo⟩ := hbegun (hlock.mp hp').1
      refine ⟨ch₀, order₀, p₀, hp₀, fun d => ?_⟩
      rw [← hsolo, Critical.solo_of_advance hadv (hlock.mp hp').1]
    · rw [Function.update_of_ne (Ne.symm hij)] at hj
      exact h.begun j q hj
  · have hmove : completedMove j ⟨s, .step i ch order, t⟩ = [] := by
      simp only [completedMove, hi, hc]
      cases p with
      | done r => cases hadv
      | _ => rfl
    rw [completed_concat, hmove, List.append_nil, hserial]
    by_cases hij : i = j
    · subst hij
      rw [h.pending_advance hi hc hadv hsys hinside, ← List.append_assoc, ← h.tally i]
      by_cases hpoint : p.lockPoint = true
      · simp only [if_pos hpoint, takenBy_concat, if_true]
      · simp only [if_neg hpoint, List.append_nil]
    · have hpending : t.pending j = s.pending j := by
        refine pending_other ?_ (hcall j) fun q hq hlocking => ?_
        · rw [hinside, Function.update_of_ne (Ne.symm hij)]
        · rw [hdev]
          exact (h.coherent.solo_other hi hadv (Ne.symm hij) hq hlocking).1.symm
      rw [hpending, ← h.tally j]
      by_cases hpoint : p.lockPoint = true
      · simp only [if_pos hpoint, takenBy_concat, if_neg hij, List.append_nil]
      · simp only [if_neg hpoint]

end Advance

end Serialized

theorem lockedMachine_serialized {tr : List (Move Locked LockLabel)} {s : Locked}
    (h : lockedMachine.Run tr s) : Serialized tr s := by
  refine h.induct (P := Serialized) ?_ ?_
  · rintro s rfl
    exact .start
  · intro tr s l t _ ih hl
    cases Locked.step_cases hl with
    | invoke => exact ih.invoke _
    | leave hi hb => exact ih.leave hi hb rfl rfl rfl
    | advance hi hadv => exact ih.advance hi hadv rfl rfl rfl
    | enter hi hc hp => exact ih.enter hi hc (sectionOf_begins hp) rfl rfl rfl
    | outside hi hb hout he => exact ih.outside hi hb hout he rfl rfl rfl

/-! ## What every run keeps -/

/-- In the order in which the sections had their last mutex, each of them is
one step of the machine; a free mutex guards what that execution left. The
sections of a call stand in that order as the call went through them, with at
most one more, which the call is still inside. -/
theorem sections_serialize {tr : List (Move Locked LockLabel)} {s : Locked}
    (h : lockedMachine.Run tr s) :
    SerialRun .fresh (serial tr).2 (serial tr).1 ∧
    (s.owner .faultLock = none → s.sys.dev.fault = (serial tr).1.fault) ∧
    (s.owner .fifoLock = none → s.sys.dev.fifo = (serial tr).1.fifo) ∧
    ∀ i, ∃ rest, takenBy i (serial tr).2 = completed i tr ++ rest ∧ rest.length ≤ 1 ∧
      (s.inside i = none → rest = []) := by
  have hs := lockedMachine_serialized h
  refine ⟨hs.run, hs.coherent.free .faultLock, hs.coherent.free .fifoLock, fun i => ?_⟩
  refine ⟨s.pending i, hs.tally i, ?_, fun hi => ?_⟩
  · unfold Locked.pending
    split
    · split <;> simp
    · simp
  · simp only [Locked.pending, hi]

/-- The words in the order of the declaration. -/
def declared : WordOrder :=
  ⟨[.type, .repeats, .delayMs, .partialReadBytes], fun w => by cases w <;> simp⟩

/-- A `GET_FAULT` arrives when one word of a new record is stored, waits for
the mutex, and copies the whole of it. -/
def halfWritten : List LockLabel :=
  [.invoke (.ioctl (.setFault ⟨faultEio, 2, 0, 0⟩)), .invoke (.ioctl .getFault),
    .step 0 { reach := 16 } declared, .step 0 {} declared, .step 0 {} declared,
    .step 0 {} declared, .step 1 {} declared]

def wholeCopy : List LockLabel :=
  halfWritten ++ List.replicate 5 (.step 0 {} declared) ++ List.replicate 7 (.step 1 {} declared)

theorem sections_serialize_wholeCopy : ∃ tr s, lockedMachine.Run tr s ∧
    SerialRun .fresh (serial tr).2 ⟨[], ⟨faultEio, 2, 0, 0⟩⟩ ∧
    s.sys.callAt 1 = some (.ioctl .getFault (.run (.copyOut ⟨faultEio, 2, 0, 0⟩))) := by
  have hrun : (lockedMachine.replay .fresh wholeCopy).map
      (fun p => ((serial p.1).1, p.2.sys.callAt 1)) =
        some (⟨[], ⟨faultEio, 2, 0, 0⟩⟩,
          some (.ioctl .getFault (.run (.copyOut ⟨faultEio, 2, 0, 0⟩)))) := rfl
  obtain ⟨tr, s, hr, heq⟩ := Lts.exists_run_of_replay (M := lockedMachine) rfl hrun
  simp only [Prod.mk.injEq] at heq
  have hserial := (sections_serialize hr).1
  rw [heq.1] at hserial
  exact ⟨tr, s, hr, hserial, heq.2⟩

/-! ## No deadlock -/

theorem guards_rank_le (l : Mutex) : guards.rank l ≤ 1 := by
  cases l with
  | faultLock => exact Nat.zero_le 1
  | fifoLock => exact Nat.le_refl 1

/-- A call that has not returned and does not sleep can go on, or another
call that is inside a section can. -/
theorem locks_never_deadlock {tr : List (Move Locked LockLabel)} {s : Locked}
    (h : lockedMachine.Run tr s) {i : Nat} {b : Caller} (hb : s.sys.callers[i]? = some b)
    (hlive : b.call.returned = false) (hawake : b.call.asleep = false ∨ b.woken = true)
    (ch : Choice) (order : WordOrder) :
    (s.step (.step i ch order)).isSome = true ∨
      ∃ j, j ≠ i ∧ (s.inside j).isSome = true ∧
        ∀ ch order, (s.step (.step j ch order)).isSome = true := by
  have hs := lockedMachine_serialized h
  cases hi : s.inside i with
  | none =>
    refine .inl ?_
    cases hsection : (s.sys.callAt i).bind (sectionOf ch order) with
    | some p => simp [Locked.step, hi, hsection]
    | none =>
      have hstep := Call.step_enabled hlive hawake s.sys.dev ch
      simp only [Locked.step, hi, hsection, Sys.step, hb, Option.isSome_map]
      exact hstep
  | some p =>
    by_cases hdone : ∃ c, p = .done c
    · obtain ⟨c, rfl⟩ := hdone
      exact .inl (by simp [Locked.step, hi, Locked.leave, hb])
    · -- some section can make its next statement
      obtain ⟨j, q, hj, next, hadv⟩ := hs.coherent.exists_advance guards_rank_le hi
        fun c hc => hdone ⟨c, hc⟩
      have hgo : ∀ ch order, (s.step (.step j ch order)).isSome = true := fun ch order => by
        cases q with
        | done c => cases hadv
        | _ => simp [Locked.step, hj, Locked.advance, hadv]
      by_cases hij : j = i
      · subst hij
        exact .inl (hgo ch order)
      · exact .inr ⟨j, hij, by rw [hj]; rfl, hgo⟩

/-- While the record is half written the `GET_FAULT` waits, and the call that
writes it goes on. -/
theorem locks_never_deadlock_halfWritten : ∃ tr s, lockedMachine.Run tr s ∧
    (s.inside 1).isSome = true ∧
    ((s.step (.step 1 {} declared)).isSome = true ∨
      ∃ j, j ≠ 1 ∧ (s.inside j).isSome = true ∧
        ∀ ch order, (s.step (.step j ch order)).isSome = true) := by
  have hrun : (lockedMachine.replay .fresh halfWritten).map
      (fun p => (p.2.sys.callers[1]?, (p.2.inside 1).isSome)) =
        some (some ⟨.ioctl .getFault (.run .start), false⟩, true) := rfl
  obtain ⟨tr, s, hr, heq⟩ := Lts.exists_run_of_replay (M := lockedMachine) rfl hrun
  simp only [Prod.mk.injEq] at heq
  exact ⟨tr, s, hr, heq.2, locks_never_deadlock hr heq.1 rfl (.inl rfl) {} declared⟩

/-! ## Whole records -/

/-- The serial device is well-formed, and so is every call. -/
structure LockedWf (tr : List (Move Locked LockLabel)) (s : Locked) : Prop where
  fault : Canonical (serial tr).1.fault
  fifo : (serial tr).1.fifo.length ≤ fifoSize
  calls : ∀ i c, s.sys.callAt i = some c → c.Wf
  results : ∀ t ∈ (serial tr).2, t.result.Wf

namespace LockedWf

variable {tr : List (Move Locked LockLabel)} {s t : Locked} {i : Nat} {ch : Choice}
  {order : WordOrder}

/-- A move that adds nothing to the serial order. -/
theorem quiet (h : LockedWf tr s) {l : LockLabel} (hserial : serial (tr ++ [⟨s, l, t⟩]) = serial tr)
    (hcalls : ∀ i c, t.sys.callAt i = some c → s.sys.callAt i = some c ∨ c.Wf) :
    LockedWf (tr ++ [⟨s, l, t⟩]) t := by
  refine ⟨by rw [hserial]; exact h.fault, by rw [hserial]; exact h.fifo, fun i c hc => ?_,
    by rw [hserial]; exact h.results⟩
  rcases hcalls i c hc with hc | hc
  · exact h.calls i c hc
  · exact hc

/-- The result of a section that is through was well-formed when the section
took its last mutex. -/
theorem left (h : LockedWf tr s) (hs : Serialized tr s) {c : Call}
    (hi : s.inside i = some (.done c)) : c.Wf := by
  obtain ⟨b, hb, -⟩ := hs.begun i _ hi
  have hpending : s.pending i = [(b, c)] := by
    simp only [Locked.pending, hi, hb]
    rfl
  have hmem : (b, c) ∈ takenBy i (serial tr).2 := by
    rw [hs.tally i, hpending]
    exact List.mem_append_right _ (List.mem_singleton_self _)
  obtain ⟨t, ht, heq⟩ := List.mem_map.mp hmem
  obtain rfl : t.result = c := congrArg Prod.snd heq
  exact h.results t (List.mem_of_mem_filter ht)

theorem taken (h : LockedWf tr s) (hs : Serialized tr s) {p : Section}
    (hi : s.inside i = some p) (hpoint : p.lockPoint = true)
    (hcalls : t.sys.callers = s.sys.callers) :
    LockedWf (tr ++ [⟨s, .step i ch order, t⟩]) t := by
  obtain ⟨c, hc, hbegun⟩ := hs.begun i p hi
  obtain ⟨ch₀, order₀, p₀, hp₀, hsolo⟩ := hbegun (Critical.locking_of_lockPoint hpoint)
  have hserial := Serialized.serial_advance tr ch order t hi hc
  rw [if_pos hpoint] at hserial
  have hmove := Call.step_move (hp₀.solo (serial tr).1 false)
  rw [← hsolo] at hmove
  have hwf := h.calls i c hc
  refine ⟨?_, ?_, fun j d hd => ?_, fun u hu => ?_⟩
  · rw [hserial]
    exact hmove.device.fault h.fault hwf
  · rw [hserial]
    exact hmove.device.fifo h.fifo
  · rw [Sys.callAt, hcalls] at hd
    exact h.calls j d hd
  · rw [hserial] at hu
    rcases List.mem_append.mp hu with hu | hu
    · exact h.results u hu
    · cases List.mem_singleton.mp hu
      exact hmove.wf h.fault hwf

theorem step {l : LockLabel} (h : LockedWf tr s) (hs : Serialized tr s) (hl : LockedStep s l t) :
    LockedWf (tr ++ [⟨s, l, t⟩]) t := by
  cases hl with
  | @invoke op =>
    refine h.quiet (serial_concat _ _) fun i c hc => ?_
    rw [Sys.callAt_invoked] at hc
    split at hc
    · cases hc
      exact .inr op.call_wf
    · exact .inl hc
  | @leave i _ _ b c hi hb =>
    refine h.quiet (Serialized.serial_quiet fun p hp => by cases hi.symm.trans hp; rfl)
      fun j d hd => ?_
    rw [Sys.callAt_after hb] at hd
    split at hd
    · cases hd
      exact .inr (h.left hs hi)
    · exact .inl hd
  | @advance i _ _ p _ _ _ hi hadv =>
    by_cases hpoint : p.lockPoint = true
    · exact h.taken hs hi hpoint rfl
    · refine h.quiet (Serialized.serial_quiet fun q hq => ?_) fun j d hd => .inl hd
      cases hi.symm.trans hq
      simpa using hpoint
  | enter hi hc hp =>
    exact h.quiet (Serialized.serial_quiet fun p hp => by cases hi.symm.trans hp)
      fun j d hd => .inl hd
  | @outside i _ _ b e hi hb hout he =>
    refine h.quiet (Serialized.serial_quiet fun p hp => by cases hi.symm.trans hp) fun j d hd => ?_
    rw [Sys.callAt_after hb] at hd
    split at hd
    · cases hd
      exact .inr ((Call.step_move he).wf_outside hout (h.calls i _ (Sys.callAt_of hb)))
    · exact .inl hd

end LockedWf

theorem lockedMachine_wf {tr : List (Move Locked LockLabel)} {s : Locked}
    (h : lockedMachine.Run tr s) : LockedWf tr s := by
  refine h.induct (P := LockedWf) ?_ ?_
  · rintro s rfl
    exact ⟨.none, Nat.zero_le _, fun i c hc => by simp [Locked.fresh, Sys.fresh, Sys.callAt] at hc,
      fun t ht => by simp [serial] at ht⟩
  · intro tr s l t hr ih hl
    exact ih.step (lockedMachine_serialized hr) (Locked.step_cases hl)

/-- The record is stored one word at a time and other calls move in between.
But a free mutex guards a canonical record, and no `GET_FAULT` returns a torn
one. -/
theorem records_whole {tr : List (Move Locked LockLabel)} {s : Locked}
    (h : lockedMachine.Run tr s) :
    (s.owner .faultLock = none → Canonical s.sys.dev.fault) ∧
    (s.owner .fifoLock = none → s.sys.dev.fifo.length ≤ fifoSize) ∧
    ∀ i cmd res config, s.sys.callAt i = some (.ioctl cmd (.returned res)) →
      res.config = some config → cmd = .getFault ∧ Canonical config := by
  have hs := lockedMachine_serialized h
  have hwf := lockedMachine_wf h
  refine ⟨fun hfree => ?_, fun hfree => ?_, fun i cmd res config hc hres => ?_⟩
  · have hfault : s.sys.dev.fault = (serial tr).1.fault := hs.coherent.free .faultLock hfree
    rw [hfault]
    exact hwf.fault
  · have hfifo : s.sys.dev.fifo = (serial tr).1.fifo := hs.coherent.free .fifoLock hfree
    rw [hfifo]
    exact hwf.fifo
  · have hout : IoctlOutcome cmd res := hwf.calls i _ hc
    cases hout with
    | failed => cases hres
    | done => cases hres
    | fetched hget hcanonical =>
      cases hres
      exact ⟨hget, hcanonical⟩

/-- The `GET_FAULT` that came in the middle of the store returns it whole. -/
theorem records_whole_copied : ∃ tr s res, lockedMachine.Run tr s ∧
    s.sys.callAt 1 = some (.ioctl .getFault (.returned res)) ∧
    res.config = some ⟨faultEio, 2, 0, 0⟩ ∧ Canonical ⟨faultEio, 2, 0, 0⟩ := by
  have hrun : (lockedMachine.replay .fresh
      (wholeCopy ++ List.replicate 2 (.step 1 { reach := 16 } declared))).map
        (fun p => p.2.sys.callAt 1) =
          some (some (.ioctl .getFault (.returned ⟨0, some ⟨faultEio, 2, 0, 0⟩⟩))) := rfl
  obtain ⟨tr, s, hr, hc⟩ := Lts.exists_run_of_replay (M := lockedMachine) rfl hrun
  exact ⟨tr, s, _, hr, hc, rfl, ((records_whole hr).2.2 1 _ _ _ hc rfl).2⟩

end VDevLab.Kernel
