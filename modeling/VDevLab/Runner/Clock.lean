import VDevLab.Runner.Scheduler

/-!
# `ScenarioScheduler.run` over the readings of its clock

What a run records depends on the outside only through the readings of the
clock and the ends of the backend's calls. Here both are given: three readings
an event, around the sleep and around the dispatch. Nothing is said about the
clock but that it does not go back, and how a reading becomes milliseconds is
left open, so that the rounding of the float product is covered.

The scheduler in exact time is one such run.
-/

namespace VDevLab.Runner

open PyStr

/-- One iteration of the loop, as the clock and the backend show it. -/
structure Turn (ε : Type) where
  /-- The reading that decides how long to sleep. -/
  polled : ℚ
  started : ℚ
  finished : ℚ
  outcome : Except ε Unit

/-- The arithmetic of the record: `x * 1000` and `(x - origin) * 1000`. -/
structure Milliseconds where
  ofReading : ℚ → ℚ
  since : ℚ → ℚ → ℚ

/-- Without rounding. -/
def Milliseconds.exact : Milliseconds := ⟨fun x => x * 1000, fun x origin => (x - origin) * 1000⟩

section Record

variable {ε : Type} (units : Milliseconds) (str : PyValue → PyStr) (isException : ε → Bool)
  (origin : ℚ)

/-- The record of one event. -/
def Turn.record (t : Turn ε) (index : Nat) (action : PyStr) (scheduled : Int) : DispatchRecord where
  index := index
  action := action
  scheduledMs := scheduled
  startedMs := units.since t.started origin
  finishedMs := units.since t.finished origin
  monotonicStartedMs := units.ofReading t.started
  monotonicFinishedMs := units.ofReading t.finished

/-- The loop over the events, from `index` on; `none` when the readings end
before it does. -/
def recordEvents : Nat → List PyDict → List (Turn ε) →
    Option (Except (SchedulerError ε) (List DispatchRecord))
  | _, [], _ => some (.ok [])
  | index, event :: events, turns =>
      match scheduledMs event index, turns with
      | .error message, _ => some (.error (.runnerError message))
      | .ok _, [] => none
      | .ok scheduled, turn :: turns =>
          let action := actionText str event
          match dispatch event, turn.outcome with
          | .error failure, _ =>
              some (.error (.eventDispatchError index action (.dispatch failure)))
          | .ok _, .error e => some (.error (dispatchError isException index action e))
          | .ok _, .ok _ =>
              (recordEvents (index + 1) events turns).map
                (·.map (turn.record units origin index action scheduled :: ·))

end Record

/-- The readings of a run, in the order they are made. -/
def readings {ε : Type} (origin : ℚ) (turns : List (Turn ε)) : List ℚ :=
  origin :: turns.flatMap fun t => [t.polled, t.started, t.finished]

/-- The clock does not go back. -/
def ClockMonotone {ε : Type} (origin : ℚ) (turns : List (Turn ε)) : Prop :=
  (readings origin turns).Pairwise (· ≤ ·)

section Law

variable {ε : Type} {units : Milliseconds} {str : PyValue → PyStr} {isException : ε → Bool}
  {origin : ℚ}

/-- What a record says about its event and its turn. -/
structure RecordOfTurn (units : Milliseconds) (str : PyValue → PyStr) (index : Nat)
    (event : PyDict) (turn : Turn ε) (record : DispatchRecord) : Prop where
  index : record.index = index
  action : record.action = actionText str event
  dispatched : ∃ c, dispatch event = .ok c
  started : record.monotonicStartedMs = units.ofReading turn.started

/-- A run that returned has one record for each event. -/
theorem recordEvents_eq_ok : ∀ {events : List PyDict} {turns : List (Turn ε)} {index : Nat}
    {records : List DispatchRecord},
    recordEvents units str isException origin index events turns = some (.ok records) →
    records.length = events.length ∧ ∀ k record, records[k]? = some record →
      ∃ event turn, events[k]? = some event ∧ turns[k]? = some turn ∧
        RecordOfTurn units str (index + k) event turn record := by
  intro events
  induction events with
  | nil =>
    intro turns index records h
    cases h
    exact ⟨rfl, by simp⟩
  | cons event events ih =>
    intro turns index records h
    simp only [recordEvents] at h
    cases hscheduled : scheduledMs event index with
    | error message =>
      rw [hscheduled] at h
      cases h
    | ok scheduled =>
      rw [hscheduled] at h
      cases turns with
      | nil => cases h
      | cons turn turns =>
        simp only at h
        split at h
        · cases h
        · cases h
        · next c u hdispatch houtcome =>
          obtain ⟨rest, hrest, h⟩ := Option.map_eq_some_iff.mp h
          cases rest with
          | error e => cases h
          | ok rest =>
            cases h
            obtain ⟨hlen, hrecords⟩ := ih hrest
            refine ⟨by rw [List.length_cons, List.length_cons, hlen], ?_⟩
            intro k record hk
            cases k with
            | zero =>
              cases hk
              exact ⟨event, turn, rfl, rfl, rfl, rfl, ⟨c, hdispatch⟩, rfl⟩
            | succ k =>
              obtain ⟨event', turn', hevent, hturn, hrecord⟩ := hrecords k record hk
              refine ⟨event', turn', hevent, hturn, ?_⟩
              rw [Nat.add_assoc, Nat.add_comm 1 k] at hrecord
              exact hrecord

/-- The starts of the turns, in order. -/
theorem ClockMonotone.started {turns : List (Turn ε)} (h : ClockMonotone origin turns) :
    turns.Pairwise fun t t' => t.started ≤ t'.started := by
  have hall := (List.pairwise_cons.mp h).2
  induction turns with
  | nil => exact .nil
  | cons t turns ih =>
    rw [List.flatMap_cons, List.pairwise_append] at hall
    obtain ⟨-, hrest, hcross⟩ := hall
    refine .cons ?_ (ih ?_ hrest)
    · intro t' ht'
      apply hcross t.started (by simp)
      exact List.mem_flatMap.mpr ⟨t', ht', by simp⟩
    · refine .cons ?_ hrest
      intro x hx
      have := (List.pairwise_cons.mp h).1 x
      rw [List.flatMap_cons] at this
      exact this (List.mem_append_right _ hx)

/-- With a monotone clock the records start one after another. -/
theorem recordEvents_ordered (hunits : Monotone units.ofReading) {events : List PyDict}
    {turns : List (Turn ε)} {index : Nat} {records : List DispatchRecord}
    (hclock : ClockMonotone origin turns)
    (h : recordEvents units str isException origin index events turns = some (.ok records)) :
    records.Pairwise fun a b => a.monotonicStartedMs ≤ b.monotonicStartedMs := by
  obtain ⟨-, hrecords⟩ := recordEvents_eq_ok h
  rw [List.pairwise_iff_getElem]
  intro i j hi hj hij
  obtain ⟨_, ti, -, hti, hri⟩ := hrecords i _ (List.getElem?_eq_getElem hi)
  obtain ⟨_, tj, -, htj, hrj⟩ := hrecords j _ (List.getElem?_eq_getElem hj)
  obtain ⟨hi', rfl⟩ := List.getElem?_eq_some_iff.mp hti
  obtain ⟨hj', rfl⟩ := List.getElem?_eq_some_iff.mp htj
  rw [hri.started, hrj.started]
  exact hunits (List.pairwise_iff_getElem.mp hclock.started i j hi' hj' hij)

end Law

/-! ## The scheduler in exact time -/

theorem clockMonotone_cons {ε : Type} {origin : ℚ} {t : Turn ε} {turns : List (Turn ε)}
    (hpolled : origin ≤ t.polled) (hstarted : t.polled ≤ t.started)
    (hfinished : t.started ≤ t.finished) (h : ClockMonotone t.finished turns) :
    ClockMonotone origin (t :: turns) := by
  have hsorted : (origin :: t.polled :: t.started :: readings t.finished turns).Pairwise
      (· ≤ ·) := by
    refine List.IsChain.pairwise (.cons_cons hpolled (.cons_cons hstarted (.cons_cons hfinished ?_)))
    exact List.Pairwise.isChain h
  exact hsorted

section Exact

variable {β ε : Type} {b : TimedBackend β ε} {str : PyValue → PyStr} {isException : ε → Bool}
  {origin : ℚ}

/-- A run in exact time reads a monotone clock. -/
theorem runEvents_records : ∀ {events : List PyDict} {index : Nat} {before : List DispatchRecord}
    {s t : SchedulerState β ε} {records : List DispatchRecord},
    runEvents b str isException origin index events before s = (t, .ok records) →
    ∃ turns rest, ClockMonotone s.now turns ∧ records = before ++ rest ∧
      recordEvents .exact str isException origin index events turns = some (.ok rest) := by
  intro events
  induction events with
  | nil =>
    intro index before s t records h
    cases h
    exact ⟨[], [], List.pairwise_singleton _ _, (List.append_nil _).symm, rfl⟩
  | cons event events ih =>
    intro index before s t records h
    simp only [runEvents, sleep_until] at h
    cases hscheduled : scheduledMs event index with
    | error message =>
      rw [hscheduled] at h
      cases h
    | ok scheduled =>
      rw [hscheduled] at h
      cases hdispatch : dispatch event with
      | error failure =>
        rw [hdispatch] at h
        cases h
      | ok c =>
        rw [hdispatch] at h
        simp only at h
        obtain ⟨d, -, hstarted, hlasts, -, hnow, houtcome⟩ :=
          make_spec b { s with now := max (origin + scheduled / 1000) s.now } c
        generalize SchedulerState.make b _ c = p at h hnow houtcome
        obtain ⟨u, outcome⟩ := p
        cases outcome with
        | error x => cases h
        | ok _ =>
          obtain ⟨turns, rest, hclock, hrecords, hrun⟩ := ih h
          replace hnow : u.now = d.finished := hnow
          rw [hnow] at hclock hrecords
          simp only at hstarted
          rw [← hstarted] at hrecords
          let turn : Turn ε := ⟨s.now, d.started, d.finished, .ok ()⟩
          refine ⟨turn :: turns,
            turn.record .exact origin index (actionText str event) scheduled :: rest,
            clockMonotone_cons le_rfl ?_ hlasts hclock, ?_, ?_⟩
          · show s.now ≤ d.started
            rw [hstarted]
            exact le_max_right ..
          · rw [hrecords, List.append_assoc]
            rfl
          · have houtcome : turn.outcome = .ok () := rfl
            simp only [recordEvents, hscheduled, hdispatch, houtcome, hrun, Option.map_some,
              Except.map]

/-- The scheduler in exact time is a run over a monotone clock. -/
theorem schedule_records {events : List PyDict} {s t : SchedulerState β ε}
    {records : List DispatchRecord}
    (h : schedule b str isException events s = (t, .ok records)) :
    ∃ turns, ClockMonotone s.now turns ∧
      recordEvents .exact str isException s.now 0 events turns = some (.ok records) := by
  obtain ⟨turns, rest, hclock, rfl, hrun⟩ := runEvents_records h
  exact ⟨turns, hclock, hrun⟩

end Exact

end VDevLab.Runner
