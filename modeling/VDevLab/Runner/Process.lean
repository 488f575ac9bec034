import VDevLab.Lib.Lts
import VDevLab.Runner.Run

/-!
# `ApplicationProcess`

The application is a process group: a leader and any number of descendants,
each of which may hold the output pipes open. A collector thread sits in
`communicate()`: it reads until every pipe end is closed, then waits for the
leader. The caller of `collect_with_timeout` or `terminate` joins that thread,
polls the leader and signals the group.

Processes, thread and caller move in any order, and time is left out: a timed
`join` may expire whenever it is waiting, so a run is a run for all timeouts.
The group is that of a POSIX system.
-/

namespace VDevLab.Runner

open PyStr

/-! ## Decoding the output -/

/-- What may follow a lead byte: how many continuation bytes, and the range of
the first of them. -/
def continuation (lead : Nat) : Option (Nat × Nat × Nat) :=
  if 0xC2 ≤ lead ∧ lead ≤ 0xDF then some (1, 0x80, 0xBF)
  else if lead = 0xE0 then some (2, 0xA0, 0xBF)
  else if lead = 0xED then some (2, 0x80, 0x9F)
  else if 0xE1 ≤ lead ∧ lead ≤ 0xEF then some (2, 0x80, 0xBF)
  else if lead = 0xF0 then some (3, 0x90, 0xBF)
  else if 0xF1 ≤ lead ∧ lead ≤ 0xF3 then some (3, 0x80, 0xBF)
  else if lead = 0xF4 then some (3, 0x80, 0x8F)
  else none

/-- The continuation bytes at the front, at most `n` of them. -/
def continuationBytes : Nat → Nat → Nat → List UInt8 → List UInt8
  | 0, _, _, _ => []
  | _, _, _, [] => []
  | n + 1, low, high, b :: rest =>
      if low ≤ b.toNat ∧ b.toNat ≤ high then b :: continuationBytes n 0x80 0xBF rest else []

/-- The value of a whole sequence. -/
def sequenceValue (lead : Nat) (more : List UInt8) : Nat :=
  more.foldl (fun value b => value * 64 + b.toNat % 64) (lead % 2 ^ (6 - more.length))

def decodeFrom : Nat → List UInt8 → PyStr
  | 0, _ => []
  | _, [] => []
  | fuel + 1, b :: rest =>
      if b.toNat < 0x80 then Fin.ofNat _ b.toNat :: decodeFrom fuel rest
      else
        match continuation b.toNat with
        | none => Fin.ofNat _ 0xFFFD :: decodeFrom fuel rest
        | some (n, low, high) =>
            let more := continuationBytes n low high rest
            -- an incomplete sequence is replaced as one, and what follows is read again
            let c := if more.length = n then sequenceValue b.toNat more else 0xFFFD
            Fin.ofNat _ c :: decodeFrom fuel (rest.drop more.length)

/-- `data.decode("utf-8", errors="replace")`. -/
def decodeReplace (data : List UInt8) : PyStr := decodeFrom data.length data

example : decodeReplace [0xE2, 0x82, 0xAC, 0xE2, 0x82, 0x62, 0xED, 0xA0] =
    [ch '€', ch '\uFFFD', ch 'b', ch '\uFFFD', ch '\uFFFD'] := by decide +kernel

/-! ## The state -/

/-- A process of the group. Its files are closed when it exits; its status is
taken, by whoever waits for it, once. -/
inductive Proc
  | running (pipe : Bool)
  | exited (status : Int)
  | reaped (status : Int)
  deriving DecidableEq

def Proc.holdsPipe : Proc → Bool
  | .running pipe => pipe
  | _ => false

/-- The collector thread in `_collect_output`. `finished none` is a
`communicate()` that raised. -/
inductive Collector
  | reading
  | waiting (output : List UInt8 × List UInt8)
  | returning (output : List UInt8 × List UInt8)
  | finished (output : Option (List UInt8 × List UInt8))
  deriving DecidableEq

/-- Where the caller is. The flag `timedOut` tells a `terminate` made by the
handler of `collect_with_timeout` from one of its own. -/
inductive Pc
  | idle
  /-- `collect(timeout_ms)`: in the timed `join`, and before `is_alive()`. -/
  | collectJoin (timeoutMs graceMs : Int)
  | collectAlive (timeoutMs graceMs : Int)
  /-- `terminate(grace_ms)`: before `poll()`, before each signal, in the grace
  `join` and before `is_alive()`. -/
  | terminatePoll (timedOut : Bool)
  | sendTerm (timedOut : Bool)
  | graceJoin (timedOut : Bool)
  | graceAlive (timedOut : Bool)
  | sendKill (timedOut : Bool)
  /-- `collect()`: at the `join` without a timeout. -/
  | join (timedOut forced : Bool)
  deriving DecidableEq

inductive ProcessError
  | runnerError (message : PyStr)
  | interrupted
  deriving DecidableEq

structure ProcessState where
  command : List PyStr
  leader : Proc := .running true
  descendants : List Proc := []
  /-- `os.killpg(pid, SIGKILL)` was called. -/
  sigkilled : Bool := false
  collector : Collector := .reading
  pc : Pc := .idle
  /-- How the last call ended. -/
  result : Option (Except ProcessError ApplicationResult) := none

namespace ProcessState

/-- `self._collector.is_alive()`. -/
def isAlive (s : ProcessState) : Bool :=
  match s.collector with
  | .finished _ => false
  | _ => true

/-- Some process has a pipe end open. -/
def pipeHeld (s : ProcessState) : Bool :=
  s.leader.holdsPipe || s.descendants.any Proc.holdsPipe

def ended (s : ProcessState) (result : Except ProcessError ApplicationResult) : ProcessState :=
  { s with pc := .idle, result := some result }

def raised (s : ProcessState) (message : PyStr) : ProcessState :=
  s.ended (.error (.runnerError message))

/-- `_result`, with the flags that the callers replace. -/
def applicationResult (s : ProcessState) (timedOut forced : Bool) :
    Except ProcessError ApplicationResult :=
  match s.collector, s.leader with
  | .finished none, _ => .error (.runnerError (py "failed to collect application output"))
  | .finished (some (stdout, stderr)), .reaped status =>
      .ok { command := s.command, exitCode := status, stdout := decodeReplace stdout
            stderr := decodeReplace stderr, timedOut, forced }
  | _, _ => .error (.runnerError (py "application output collector ended without a result"))

/-- `poll()` is not `None`. While the collector is inside `waitpid` (`busy`) it
only knows a status that was already taken. -/
def exitSeen (s : ProcessState) (busy : Bool) : Bool :=
  match s.leader with
  | .running _ => false
  | .exited _ => !busy
  | .reaped _ => true

/-- The status of an exited leader is taken. -/
def reapLeader (s : ProcessState) : ProcessState :=
  match s.leader with
  | .exited status => { s with leader := .reaped status }
  | _ => s

end ProcessState

/-! ## Steps -/

inductive ProcessCall
  | collectWithTimeout (timeoutMs graceMs : Int)
  | terminate (graceMs : Int)
  deriving DecidableEq

/-- One step, with what its environment decides. A process is the leader
(`none`) or a descendant. -/
inductive ProcessAct
  | call (c : ProcessCall)
  | joinReturns
  | joinExpires
  | checkAlive
  | poll (busy : Bool)
  | signal
  | interrupt
  | exits (who : Option Nat) (status : Int)
  | closes (who : Option Nat)
  | forks (who : Option Nat)
  | reaps (i : Nat)
  | readEnd (output : List UInt8 × List UInt8)
  | waitEnd
  | threadEnd
  | communicateRaises

namespace ProcessState

/-- `terminate` up to its `poll`. -/
def enterTerminate (s : ProcessState) (timedOut : Bool) (graceMs : Int) : ProcessState :=
  if graceMs ≤ 0 then s.raised (py "grace_ms must be a positive integer")
  else { s with pc := .terminatePoll timedOut }

def enter (s : ProcessState) : ProcessCall → ProcessState
  | .collectWithTimeout timeoutMs graceMs =>
      if timeoutMs ≤ 0 then s.raised (py "timeout_ms must be a positive integer")
      else { s with pc := .collectJoin timeoutMs graceMs }
  | .terminate graceMs => s.enterTerminate false graceMs

/-- A `join` returned, because the thread ended or its time was up. -/
def joined (s : ProcessState) : Option ProcessState :=
  match s.pc with
  | .collectJoin timeoutMs graceMs => some { s with pc := .collectAlive timeoutMs graceMs }
  | .graceJoin timedOut => some { s with pc := .graceAlive timedOut }
  | _ => none

/-- `is_alive()` and the branch on it. -/
def checkAlive (s : ProcessState) : Option ProcessState :=
  match s.pc with
  | .collectAlive _ graceMs =>
      some (if s.isAlive then s.enterTerminate true graceMs
        else s.ended (s.applicationResult false false))
  | .graceAlive timedOut =>
      some { s with pc := if s.isAlive then .sendKill timedOut else .join timedOut false }
  | _ => none

/-- `poll()`, in `terminate` or called by the owner. -/
def pollLeader (s : ProcessState) (busy : Bool) : Option ProcessState :=
  match s.pc with
  | .idle => some (if s.exitSeen busy then s.reapLeader else s)
  | .terminatePoll timedOut =>
      some (if s.exitSeen busy then { s.reapLeader with pc := .join timedOut false }
        else { s with pc := .sendTerm timedOut })
  | _ => none

/-- `_signal_group`: a group that is gone raises `ProcessLookupError`, which is
ignored. What SIGTERM does is left to the processes. -/
def signalGroup (s : ProcessState) : Option ProcessState :=
  match s.pc with
  | .sendTerm timedOut => some { s with pc := .graceJoin timedOut }
  | .sendKill timedOut => some { s with pc := .join timedOut true, sigkilled := true }
  | _ => none

def proc? (s : ProcessState) : Option Nat → Option Proc
  | none => some s.leader
  | some i => s.descendants[i]?

def setProc (s : ProcessState) (p : Proc) : Option Nat → ProcessState
  | none => { s with leader := p }
  | some i => { s with descendants := s.descendants.set i p }

/-- A step of the group. A process that SIGKILL reached forks no more. -/
def groupStep (s : ProcessState) : ProcessAct → Option ProcessState
  | .exits who status =>
      match s.proc? who with
      | some (.running _) => some (s.setProc (.exited status) who)
      | _ => none
  | .closes who =>
      match s.proc? who with
      | some (.running _) => some (s.setProc (.running false) who)
      | _ => none
  | .forks who =>
      match s.proc? who, s.sigkilled with
      | some (.running pipe), false =>
          some { s with descendants := s.descendants ++ [.running pipe] }
      | _, _ => none
  | .reaps i =>
      match s.descendants[i]? with
      | some (.exited status) => some (s.setProc (.reaped status) (some i))
      | _ => none
  | _ => none

/-- A step of the collector: `communicate()` reads to the end of the pipes,
then waits for the leader. -/
def collectorStep (s : ProcessState) : ProcessAct → Option ProcessState
  | .readEnd output =>
      match s.collector, s.pipeHeld with
      | .reading, false => some { s with collector := .waiting output }
      | _, _ => none
  | .waitEnd =>
      match s.collector, s.leader with
      | .waiting output, .exited _ => some { s.reapLeader with collector := .returning output }
      | .waiting output, .reaped _ => some { s with collector := .returning output }
      | _, _ => none
  | .threadEnd =>
      match s.collector with
      | .returning output => some { s with collector := .finished (some output) }
      | _ => none
  | .communicateRaises =>
      if s.isAlive then some { s with collector := .finished none } else none
  | _ => none

/-- `busy` is possible only while the collector waits for the leader. -/
def mayPoll (s : ProcessState) (busy : Bool) : Bool :=
  match s.collector with
  | .waiting _ => true
  | _ => !busy

def step (s : ProcessState) : ProcessAct → Option ProcessState
  | .call c => if s.pc = .idle then some (s.enter c) else none
  | .joinReturns =>
      if s.isAlive then none
      else
        match s.pc with
        | .join timedOut forced => some (s.ended (s.applicationResult timedOut forced))
        | _ => s.joined
  | .joinExpires => s.joined
  | .checkAlive => s.checkAlive
  | .poll busy => if s.mayPoll busy then s.pollLeader busy else none
  | .signal => s.signalGroup
  -- what a signal handler raises in the caller leaves the call
  | .interrupt => if s.pc = .idle then none else some (s.ended (.error .interrupted))
  | .exits who status => s.groupStep (.exits who status)
  | .closes who => s.groupStep (.closes who)
  | .forks who => s.groupStep (.forks who)
  | .reaps i => s.groupStep (.reaps i)
  | .readEnd output => s.collectorStep (.readEnd output)
  | .waitEnd => s.collectorStep .waitEnd
  | .threadEnd => s.collectorStep .threadEnd
  | .communicateRaises => s.collectorStep .communicateRaises

end ProcessState

/-- An application that was started: the leader runs and holds its pipes. -/
def applicationProcess : Lts ProcessState ProcessAct where
  init s := ∃ command, s = { command }
  step := ProcessState.step

/-! ## What the steps leave alone -/

namespace ProcessState

variable {s t : ProcessState} {l : ProcessAct}

theorem isAlive_eq (h : t.collector = s.collector) : t.isAlive = s.isAlive := by
  unfold isAlive
  rw [h]

@[simp] theorem reapLeader_pc (s : ProcessState) : s.reapLeader.pc = s.pc := by
  unfold reapLeader
  split <;> rfl

@[simp] theorem reapLeader_collector (s : ProcessState) :
    s.reapLeader.collector = s.collector := by
  unfold reapLeader
  split <;> rfl

@[simp] theorem reapLeader_sigkilled (s : ProcessState) :
    s.reapLeader.sigkilled = s.sigkilled := by
  unfold reapLeader
  split <;> rfl

@[simp] theorem reapLeader_result (s : ProcessState) : s.reapLeader.result = s.result := by
  unfold reapLeader
  split <;> rfl

theorem setProc_frame (p : Proc) (who : Option Nat) :
    (s.setProc p who).pc = s.pc ∧ (s.setProc p who).collector = s.collector ∧
      (s.setProc p who).sigkilled = s.sigkilled ∧ (s.setProc p who).result = s.result := by
  cases who <;> exact ⟨rfl, rfl, rfl, rfl⟩

/-- The group moves on its own: caller, collector and signals stay. -/
theorem groupStep_frame (h : s.groupStep l = some t) :
    t.pc = s.pc ∧ t.collector = s.collector ∧ t.sigkilled = s.sigkilled ∧ t.result = s.result := by
  cases l <;> simp only [groupStep] at h
  case exits who status =>
    split at h
    · cases h
      exact setProc_frame _ who
    · cases h
  case closes who =>
    split at h
    · cases h
      exact setProc_frame _ who
    · cases h
  case forks who =>
    split at h
    · cases h
      exact ⟨rfl, rfl, rfl, rfl⟩
    · cases h
  case reaps i =>
    split at h
    · cases h
      exact setProc_frame _ (some i)
    · cases h
  all_goals cases h

/-- A step of the collector is made by a live thread and leaves caller and
signals alone. -/
theorem collectorStep_frame (h : s.collectorStep l = some t) :
    t.pc = s.pc ∧ t.sigkilled = s.sigkilled ∧ t.result = s.result ∧ s.isAlive = true := by
  cases l <;> simp only [collectorStep] at h
  case readEnd output =>
    split at h
    · cases h
      exact ⟨rfl, rfl, rfl, by simp [isAlive, *]⟩
    · cases h
  case waitEnd =>
    split at h
    · cases h
      exact ⟨by simp, by simp, by simp, by simp [isAlive, *]⟩
    · cases h
      exact ⟨rfl, rfl, rfl, by simp [isAlive, *]⟩
    · cases h
  case threadEnd =>
    split at h
    · cases h
      exact ⟨rfl, rfl, rfl, by simp [isAlive, *]⟩
    · cases h
  case communicateRaises =>
    split at h
    · cases h
      exact ⟨rfl, rfl, rfl, by assumption⟩
    · cases h
  all_goals cases h

end ProcessState

/-! ## When the collector ends -/

/-- A step of the caller changes no process but the leader, whose status
`poll` may take. -/
structure OnlyReaps (s t : ProcessState) : Prop where
  collector : t.collector = s.collector
  descendants : t.descendants = s.descendants
  leader : t.leader = s.leader ∨ t.leader = s.reapLeader.leader

namespace ProcessState

variable {s t : ProcessState} {l : ProcessAct}

theorem onlyReaps_ended (r : Except ProcessError ApplicationResult) : OnlyReaps s (s.ended r) :=
  ⟨rfl, rfl, .inl rfl⟩

theorem onlyReaps_pc (pc : Pc) (sigkilled : Bool) : OnlyReaps s { s with pc, sigkilled } :=
  ⟨rfl, rfl, .inl rfl⟩

theorem onlyReaps_enterTerminate (b : Bool) (graceMs : Int) :
    OnlyReaps s (s.enterTerminate b graceMs) := by
  unfold enterTerminate
  split
  · exact onlyReaps_ended _
  · exact onlyReaps_pc _ _

theorem onlyReaps_joined (h : s.joined = some t) : OnlyReaps s t := by
  unfold joined at h
  split at h
  · cases h
    exact onlyReaps_pc _ _
  · cases h
    exact onlyReaps_pc _ _
  · cases h

theorem onlyReaps_pollLeader {busy : Bool} (h : s.pollLeader busy = some t) : OnlyReaps s t := by
  have hreap : ∀ pc, OnlyReaps s { s.reapLeader with pc } := by
    intro pc
    refine ⟨s.reapLeader_collector, ?_, .inr rfl⟩
    show s.reapLeader.descendants = s.descendants
    unfold reapLeader
    split <;> rfl
  unfold pollLeader at h
  split at h
  · cases h
    split
    · exact hreap s.reapLeader.pc
    · exact ⟨rfl, rfl, .inl rfl⟩
  · cases h
    split
    · exact hreap _
    · exact onlyReaps_pc _ _
  · cases h

/-- Every step is one of the group, of the collector, or of the caller. -/
theorem step_cases (h : s.step l = some t) :
    s.groupStep l = some t ∨ s.collectorStep l = some t ∨ OnlyReaps s t := by
  cases l <;> simp only [step] at h
  case call c =>
    split at h
    · cases h
      cases c with
      | collectWithTimeout timeoutMs graceMs =>
        simp only [enter]
        split
        · exact .inr (.inr (onlyReaps_ended _))
        · exact .inr (.inr (onlyReaps_pc _ _))
      | terminate graceMs => exact .inr (.inr (onlyReaps_enterTerminate _ _))
    · cases h
  case joinReturns =>
    split at h
    · cases h
    · split at h
      · cases h
        exact .inr (.inr (onlyReaps_ended _))
      · exact .inr (.inr (onlyReaps_joined h))
  case joinExpires => exact .inr (.inr (onlyReaps_joined h))
  case checkAlive =>
    unfold ProcessState.checkAlive at h
    split at h
    · cases h
      split
      · exact .inr (.inr (onlyReaps_enterTerminate _ _))
      · exact .inr (.inr (onlyReaps_ended _))
    · cases h
      exact .inr (.inr (onlyReaps_pc _ _))
    · cases h
  case poll busy =>
    split at h
    · exact .inr (.inr (onlyReaps_pollLeader h))
    · cases h
  case signal =>
    unfold signalGroup at h
    split at h
    · cases h
      exact .inr (.inr (onlyReaps_pc _ _))
    · cases h
      exact .inr (.inr (onlyReaps_pc _ _))
    · cases h
  case interrupt =>
    split at h
    · cases h
    · cases h
      exact .inr (.inr (onlyReaps_ended _))
  case exits => exact .inl h
  case closes => exact .inl h
  case forks => exact .inl h
  case reaps => exact .inl h
  case readEnd => exact .inr (.inl h)
  case waitEnd => exact .inr (.inl h)
  case threadEnd => exact .inr (.inl h)
  case communicateRaises => exact .inr (.inl h)

/-- What the collector has seen: past its reading no pipe end is open, and past
its waiting the leader's status is taken. -/
def Seen (s : ProcessState) : Prop :=
  match s.collector with
  | .waiting _ => s.pipeHeld = false
  | .returning _ => s.pipeHeld = false ∧ ∃ status, s.leader = .reaped status
  | .finished (some _) => s.pipeHeld = false ∧ ∃ status, s.leader = .reaped status
  | _ => True

theorem pipeHeld_false :
    s.pipeHeld = false ↔ ∀ who p, s.proc? who = some p → p.holdsPipe = false := by
  simp only [pipeHeld, Bool.or_eq_false_iff, List.any_eq_false]
  constructor
  · intro h who p hp
    cases who with
    | none =>
      cases hp
      exact h.1
    | some i => simpa using h.2 p (List.mem_of_getElem? hp)
  · intro h
    refine ⟨h none _ rfl, ?_⟩
    intro p hp
    obtain ⟨i, hi⟩ := List.getElem?_of_mem hp
    simpa using h (some i) p hi

theorem proc?_setProc {who who' : Option Nat} {p q : Proc}
    (h : (s.setProc p who).proc? who' = some q) : q = p ∨ s.proc? who' = some q := by
  cases who with
  | none =>
    cases who' with
    | none =>
      cases h
      exact .inl rfl
    | some i => exact .inr h
  | some j =>
    cases who' with
    | none => exact .inr h
    | some i =>
      replace h : (s.descendants.set j p)[i]? = some q := h
      by_cases hij : j = i
      · subst hij
        have hlt := (List.getElem?_eq_some_iff.mp h).1
        rw [List.length_set] at hlt
        rw [List.getElem?_set_self hlt] at h
        cases h
        exact .inl rfl
      · rw [List.getElem?_set_ne hij] at h
        exact .inr h

/-- Closed pipes stay closed and a status that was taken stays taken, whatever
the group does: a child inherits only what its parent holds. -/
theorem groupStep_seen (h : s.groupStep l = some t) :
    (s.pipeHeld = false → t.pipeHeld = false) ∧
    (∀ status, s.leader = .reaped status → t.leader = .reaped status) := by
  have hset : ∀ {p : Proc} {who : Option Nat}, p.holdsPipe = false →
      s.pipeHeld = false → (s.setProc p who).pipeHeld = false := by
    intro p who hp hs
    rw [pipeHeld_false] at hs ⊢
    intro who' q hq
    rcases proc?_setProc hq with rfl | hq
    · exact hp
    · exact hs who' q hq
  have hleader : ∀ {p q : Proc} {who : Option Nat}, s.proc? who = some q →
      (∀ status, q ≠ .reaped status) →
      ∀ status, s.leader = .reaped status → (s.setProc p who).leader = .reaped status := by
    intro p q who hq hne status hs
    cases who with
    | none =>
      cases hq
      exact absurd hs (hne status)
    | some i => exact hs
  cases l <;> simp only [groupStep] at h
  case exits who status =>
    split at h
    · cases h
      exact ⟨hset rfl, hleader (by assumption) (by simp)⟩
    · cases h
  case closes who =>
    split at h
    · cases h
      exact ⟨hset rfl, hleader (by assumption) (by simp)⟩
    · cases h
  case forks who =>
    split at h
    · rename_i pipe hpipe hkilled
      cases h
      refine ⟨?_, fun _ hs => hs⟩
      intro hs
      have hp : pipe = false := pipeHeld_false.mp hs who _ hpipe
      simp only [pipeHeld, Bool.or_eq_false_iff] at hs
      simp only [pipeHeld, List.any_append, hs.1, hs.2, hp]
      rfl
    · cases h
  case reaps i =>
    split at h
    · cases h
      exact ⟨hset rfl, fun _ hs => hs⟩
    · cases h
  all_goals cases h

theorem Seen.of_same (hs : s.Seen) (hcollector : t.collector = s.collector)
    (hpipe : s.pipeHeld = false → t.pipeHeld = false)
    (hleader : ∀ status, s.leader = .reaped status → t.leader = .reaped status) : t.Seen := by
  unfold Seen at hs ⊢
  rw [hcollector]
  split <;> rename_i heq <;> simp only [heq] at hs
  · exact hpipe hs
  · exact ⟨hpipe hs.1, hs.2.imp hleader⟩
  · exact ⟨hpipe hs.1, hs.2.imp hleader⟩
  · trivial

theorem reapLeader_seen (s : ProcessState) :
    (s.pipeHeld = false → s.reapLeader.leader.holdsPipe = false) ∧
    (∀ status, s.leader = .reaped status → s.reapLeader.leader = .reaped status) := by
  unfold reapLeader
  split
  · rename_i status heq
    exact ⟨fun _ => rfl, by simp [heq]⟩
  · simp only [pipeHeld, Bool.or_eq_false_iff]
    exact ⟨fun h => h.1, fun _ h => h⟩

theorem Seen.step (hs : s.Seen) (h : s.step l = some t) : t.Seen := by
  rcases step_cases h with h | h | h
  · exact hs.of_same (groupStep_frame h).2.1 (groupStep_seen h).1 (groupStep_seen h).2
  · cases l <;> simp only [collectorStep] at h
    case readEnd output =>
      split at h
      · cases h
        assumption
      · cases h
    case waitEnd =>
      unfold Seen at hs
      split at h
      · rename_i output status hcollector hleader
        cases h
        simp only [hcollector] at hs
        have hreap : s.reapLeader = { s with leader := .reaped status } := by
          simp [reapLeader, hleader]
        simp only [pipeHeld, hleader, Proc.holdsPipe, Bool.false_or] at hs
        simp [Seen, hreap, pipeHeld, Proc.holdsPipe, hs]
      · rename_i output status hcollector hleader
        cases h
        simp only [hcollector] at hs
        exact ⟨hs, status, hleader⟩
      · cases h
    case threadEnd =>
      unfold Seen at hs
      split at h
      · rename_i output hcollector
        cases h
        simp only [hcollector] at hs
        exact hs
      · cases h
    case communicateRaises =>
      split at h
      · cases h
        trivial
      · cases h
    all_goals cases h
  · apply hs.of_same h.collector
    · intro hp
      have hleader : t.leader.holdsPipe = false := by
        rcases h.leader with heq | heq <;> rw [heq]
        · simp only [pipeHeld, Bool.or_eq_false_iff] at hp
          exact hp.1
        · exact (reapLeader_seen s).1 hp
      simp only [pipeHeld, Bool.or_eq_false_iff] at hp ⊢
      exact ⟨hleader, h.descendants ▸ hp.2⟩
    · intro status hp
      rcases h.leader with heq | heq <;> rw [heq]
      · exact hp
      · exact (reapLeader_seen s).2 status hp

end ProcessState

/-- In every run: a collector that ended without an error has seen every pipe
end closed and the leader reaped, so `_result` has what it needs. -/
theorem collector_finished {tr s} (h : applicationProcess.Run tr s) {output}
    (hs : s.collector = .finished (some output)) (timedOut forced : Bool) :
    s.pipeHeld = false ∧ ∃ r, s.applicationResult timedOut forced = .ok r := by
  have hseen : s.Seen := h.invariant (I := ProcessState.Seen)
    (by rintro s ⟨command, rfl⟩; trivial) (fun s l t hs hl => hs.step hl)
  simp only [ProcessState.Seen, hs] at hseen
  obtain ⟨hpipe, status, hleader⟩ := hseen
  obtain ⟨stdout, stderr⟩ := output
  refine ⟨hpipe, ?_⟩
  simp only [ProcessState.applicationResult, hs, hleader]
  exact ⟨_, rfl⟩

end VDevLab.Runner
