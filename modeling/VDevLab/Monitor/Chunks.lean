import VDevLab.Monitor.Buffer
import VDevLab.Monitor.EndToEnd

/-!
# Chunking does not matter

The monitor sees the stream in pieces whose ends depend on caps, on the fill
of the FIFO, on its own read buffer and on when writers come. The lines it
prints about its input do not: they are those of the bytes delivered so far,
taken in one call.

Here other processes may do everything but read and reset: they write, poll
and make any control call at any time, so faults of every kind are set,
cleared and replaced as they like. Signals come at any time too.
-/

namespace VDevLab.Monitor

open Kernel (Sys Call Op Choice Caller CallMove Effect Device streams)

/-! ## The client alone -/

/-- A line about the input, and not about the device or the client. -/
def LogLine.isInput : LogLine → Bool
  | .temperature _ => true
  | .simple .invalidInput => true
  | .simple .inputTooLong => true
  | _ => false

/-- The line events of a log, with their values. -/
def inputLines (log : List LogLine) : List LogLine := log.filter (·.isInput)

/-- The bytes that a read handed to the client. -/
def ReadOutcome.bytes : ReadOutcome → List UInt8
  | .returned bytes => bytes
  | .failed _ => []

/-- The bytes that a step of the client takes in. -/
def Input.bytes : Input → List UInt8
  | .read r => r.bytes
  | _ => []

/-- The bytes that the client has taken in, in order. -/
def dataRead (tr : List (Move Client Input)) : List UInt8 := tr.flatMap fun m => m.label.bytes

theorem dataRead_concat (tr : List (Move Client Input)) (m : Move Client Input) :
    dataRead (tr ++ [m]) = dataRead tr ++ m.label.bytes := by
  simp [dataRead]

theorem inputLines_append (xs ys : List LogLine) :
    inputLines (xs ++ ys) = inputLines xs ++ inputLines ys := List.filter_append ..

theorem LogLine.OfInput.isInput {l : LogLine} (h : l.OfInput) : l.isInput = true := by
  cases l with
  | simple event => rcases h with rfl | rfl <;> rfl
  | temperature value => rfl
  | _ => exact h.elim

theorem inputLines_consumeInput (o : Options) (input : InputBuffer) (n : UInt32)
    (data : List UInt8) :
    inputLines (consumeInput o input n data).lines = (consumeInput o input n data).lines :=
  List.filter_eq_self.mpr fun l hl => (consumeInput_ofInput o input n data l hl).isInput

/-- A step that takes in no data: neither the input lines nor the parser's
state change. -/
structure Client.SameInput (c c' : Client) : Prop where
  lines : inputLines c'.log = inputLines c.log
  input : c'.input = c.input
  eventCount : c'.eventCount = c.eventCount

theorem Client.sameInput_leave (c : Client) {l : LogLine} (hl : l.isInput = false) (status : Nat) :
    c.SameInput (c.leave l status) := by
  refine ⟨?_, rfl, rfl⟩
  show inputLines (c.log ++ [l]) = _
  rw [inputLines_append]
  simp [inputLines, hl]

theorem Client.sameInput_polled (c : Client) (p : PollOutcome) : c.SameInput (c.polled p) := by
  cases p with
  | failed errno =>
    simp only [Client.polled]
    split
    · exact ⟨rfl, rfl, rfl⟩
    · exact ⟨rfl, rfl, rfl⟩
  | timedOut => exact ⟨rfl, rfl, rfl⟩
  | ready revents =>
    simp only [Client.polled]
    split
    · exact ⟨rfl, rfl, rfl⟩
    · exact ⟨rfl, rfl, rfl⟩

theorem Client.sameInput_readFailed (c : Client) (errno : Errno) :
    c.SameInput (c.readFailed errno) := by
  unfold Client.readFailed
  split
  · exact ⟨rfl, rfl, rfl⟩
  · split
    · simp only
      split
      · obtain ⟨hlines, hinput, hcount⟩ :=
          Client.sameInput_leave { c with eioRetries := c.eioRetries + 1 }
            (l := .errno .readFailed EIO) rfl 1
        exact ⟨hlines, hinput, hcount⟩
      · refine ⟨?_, rfl, rfl⟩
        show inputLines (c.log ++ [.retry (c.eioRetries + 1)]) = _
        rw [inputLines_append]
        simp [inputLines, LogLine.isInput]
    · split
      · exact c.sameInput_leave rfl 0
      · exact c.sameInput_leave rfl 1

/-- The client behind the bytes it has taken in: it printed the lines of one
call on all of them, and while it runs it stands where that call stands. -/
structure Parsed (o : Options) (data : List UInt8) (c : Client) : Prop where
  lines : inputLines c.log = (consumeInput o .empty 0 data).lines
  state : (∃ status, c.pc = .exited status) ∨
    ((consumeInput o .empty 0 data).full = false ∧
      c.input = (consumeInput o .empty 0 data).input ∧
      c.eventCount = (consumeInput o .empty 0 data).eventCount)

theorem Parsed.of_sameInput {o : Options} {data : List UInt8} {c c' : Client} (h : Parsed o data c)
    (hs : c.SameInput c') (hpc : ∀ status, c.pc ≠ .exited status) : Parsed o data c' := by
  refine ⟨hs.lines.trans h.lines, ?_⟩
  rcases h.state with ⟨status, hex⟩ | ⟨hfull, hinput, hcount⟩
  · exact absurd hex (hpc status)
  · exact .inr ⟨hfull, hs.input.trans hinput, hs.eventCount.trans hcount⟩

/-- One more chunk. -/
theorem Parsed.received {o : Options} {data : List UInt8} {c : Client} (h : Parsed o data c)
    (hpc : ∀ status, c.pc ≠ .exited status) (bytes : List UInt8) :
    Parsed o (data ++ bytes) (c.received o bytes) := by
  rcases h.state with ⟨status, hex⟩ | ⟨hfull, hinput, hcount⟩
  · exact absurd hex (hpc status)
  have happend := consumeInput_append o .empty 0 data bytes
  simp only [hfull, Bool.false_eq_true, if_false, ← hinput, ← hcount] at happend
  have hrecovery : inputLines c.recoveryLines = [] := by
    unfold Client.recoveryLines
    split <;> rfl
  constructor
  · rw [c.received_log o bytes, inputLines_append, inputLines_append, hrecovery, List.append_nil,
      inputLines_consumeInput, h.lines, happend]
  · rw [happend]
    simp only [Client.received]
    split
    · exact .inl ⟨0, rfl⟩
    · next hnot => exact .inr ⟨Bool.eq_false_iff.mpr hnot, rfl, rfl⟩

theorem Parsed.step {o : Options} {data : List UInt8} {c c' : Client} {i : Input}
    (h : Parsed o data c) (hstep : c.step o i = some c') : Parsed o (data ++ i.bytes) c' := by
  have hpc := (Client.step_move hstep).2
  cases i with
  | poll p =>
    simp only [Client.step] at hstep
    split at hstep
    · cases hstep
      show Parsed o (data ++ []) _
      rw [List.append_nil]
      exact h.of_sameInput (c.sameInput_polled p) hpc
    · cases hstep
  | signal =>
    simp only [Client.step] at hstep
    cases hstep
    show Parsed o (data ++ []) _
    rw [List.append_nil]
    exact h.of_sameInput ⟨rfl, rfl, rfl⟩ hpc
  | read r =>
    simp only [Client.step] at hstep
    split at hstep
    · cases hstep
      cases r with
      | failed errno =>
        show Parsed o (data ++ []) _
        rw [List.append_nil]
        exact h.of_sameInput (c.sameInput_readFailed errno) hpc
      | returned bytes =>
        rw [Client.afterRead, Input.bytes, ReadOutcome.bytes]
        split
        · next hnil =>
          rw [hnil, List.append_nil]
          exact h.of_sameInput (c.sameInput_leave rfl 0) hpc
        · exact h.received hpc bytes
    · cases hstep

/-- Over every run of the client, its input lines are those of all the bytes
it took in, in one call. -/
theorem parsed_of_run {o : Options} {tr : List (Move Client Input)} {c : Client}
    (h : (client o).Run tr c) : Parsed o (dataRead tr) c := by
  refine h.induct (P := fun tr c => Parsed o (dataRead tr) c) ?_ ?_
  · intro c hc
    obtain ⟨stop, rfl⟩ := hc
    exact ⟨rfl, .inr ⟨rfl, rfl, rfl⟩⟩
  · intro tr c i c' _ hparsed hstep
    rw [dataRead_concat]
    exact hparsed.step hstep

/-! ## The monitor on the device -/

/-- The module, the client, and its system call in progress. -/
structure Station where
  sys : Sys
  client : Client
  call : Option Nat

inductive StationLabel
  /-- Another process starts a call. -/
  | invoke (op : Op)
  /-- A call of another process makes a step. -/
  | other (i : Nat) (ch : Choice)
  /-- A signal reaches the client. -/
  | signal
  /-- The client makes its next system call. -/
  | issue
  /-- That call makes a step. -/
  | advance (ch : Choice)
  /-- The client goes on with its result. -/
  | handle
  deriving DecidableEq

/-- What other processes may call: everything but reads and `RESET`. -/
def admitted : Op → Bool
  | .read _ => false
  | .ioctl .reset => false
  | _ => true

/-- What the client learns from a call that has returned. The handlers are
installed without `SA_RESTART`, so an interrupted read is not made again. -/
def syscallOutcome : Call → Option Input
  | .read _ (.returned res) =>
      some (.read (if res.ret = -Kernel.ERESTARTSYS then .failed EINTR else readOutcome res))
  | c => callOutcome c

section Step

variable (o : Options) (s : Station)

/-- A step of the module alone. -/
def Station.device (l : Kernel.Label) : Option Station :=
  (s.sys.step l).map fun t => { s with sys := t }

def Station.step : StationLabel → Option Station
  | .invoke op => if admitted op then s.device (.invoke op) else none
  -- the monitor's own call is stepped by `advance` only
  | .other i ch => if s.call = some i then none else s.device (.step i ch)
  | .signal => (s.client.step o .signal).map fun client => { s with client }
  | .issue =>
      if s.call = none then
        s.client.request.bind fun op =>
          ({ s with call := some s.sys.callers.length } : Station).device (.invoke op)
      else none
  -- the read buffer can be written
  | .advance ch =>
      if monitorRead.count ≤ ch.reach then s.call.bind fun i => s.device (.step i ch) else none
  | .handle => do
      let i ← s.call
      let call ← s.sys.callAt i
      let input ← syscallOutcome call
      let client ← s.client.step o input
      return { s with client, call := none }

end Step

/-- The loaded module with the monitor in front of its loop. -/
def station (o : Options) : Lts Station StationLabel :=
  ⟨fun s => ∃ stopRequested, s = ⟨Sys.fresh, .started stopRequested, none⟩, Station.step o⟩

/-- The monitor's call in progress. -/
def Station.inProgress (s : Station) : Option Call := s.call.bind s.sys.callAt

/-- The bytes that the read in progress took out of the FIFO. -/
def Station.undelivered (s : Station) : List UInt8 := (s.inProgress.map Call.readBytes).getD []

/-- The step of the module that a label makes. -/
def StationLabel.device (s : Station) : StationLabel → Option Kernel.Label
  | .invoke op => some (.invoke op)
  | .other i ch => some (.step i ch)
  | .issue => s.client.request.map .invoke
  | .advance ch => s.call.map fun i => .step i ch
  | _ => none

/-- The step of the client that a label makes. -/
def StationLabel.client (s : Station) : StationLabel → Option Input
  | .signal => some .signal
  | .handle => s.inProgress.bind syscallOutcome
  | _ => none

/-- The module's part of a run. -/
def moduleMoves (tr : List (Move Station StationLabel)) : List (Move Sys Kernel.Label) :=
  tr.filterMap fun m => (m.label.device m.pre).map fun l => ⟨m.pre.sys, l, m.post.sys⟩

/-- The client's part of a run. -/
def clientMoves (tr : List (Move Station StationLabel)) : List (Move Client Input) :=
  tr.filterMap fun m => (m.label.client m.pre).map fun i => ⟨m.pre.client, i, m.post.client⟩

/-- The bytes delivered to the client. -/
def deliveredBytes (tr : List (Move Station StationLabel)) : List UInt8 := dataRead (clientMoves tr)

/-- The bytes that the writes put into the FIFO. -/
def writtenBytes (tr : List (Move Station StationLabel)) : List UInt8 :=
  (streams (moduleMoves tr)).accepted

theorem Station.device_eq_some {s s' : Station} {l : Kernel.Label} (h : s.device l = some s') :
    ∃ t, s.sys.step l = some t ∧ s' = { s with sys := t } := by
  obtain ⟨t, ht, rfl⟩ := Option.map_eq_some_iff.mp h
  exact ⟨t, ht, rfl⟩

/-- What a step of the station can do. -/
inductive StationMove (o : Options) (s : Station) : StationLabel → Station → Prop
  | invoke {op} : admitted op = true →
      StationMove o s (.invoke op) { s with sys := s.sys.invoked op }
  | other {i ch t} : s.call ≠ some i → s.sys.step (.step i ch) = some t →
      StationMove o s (.other i ch) { s with sys := t }
  | signal {client} : s.client.step o .signal = some client →
      StationMove o s .signal { s with client }
  | issue {op} : s.call = none → s.client.request = some op →
      StationMove o s .issue
        { s with sys := s.sys.invoked op, call := some s.sys.callers.length }
  | advance {i ch t} : s.call = some i → s.sys.step (.step i ch) = some t →
      StationMove o s (.advance ch) { s with sys := t }
  | handle {i c input client} : s.call = some i → s.sys.callAt i = some c →
      syscallOutcome c = some input → s.client.step o input = some client →
      StationMove o s .handle { s with client, call := none }

theorem Station.step_move {o : Options} {s s' : Station} {l : StationLabel}
    (h : s.step o l = some s') : StationMove o s l s' := by
  cases l with
  | invoke op =>
    simp only [Station.step] at h
    split at h
    · next hop =>
      obtain ⟨t, ht, rfl⟩ := Station.device_eq_some h
      cases ht
      exact .invoke hop
    · cases h
  | other i ch =>
    simp only [Station.step] at h
    split at h
    · cases h
    · next hne =>
      obtain ⟨t, ht, rfl⟩ := Station.device_eq_some h
      exact .other hne ht
  | signal =>
    obtain ⟨client, hclient, rfl⟩ := Option.map_eq_some_iff.mp h
    exact .signal hclient
  | issue =>
    simp only [Station.step] at h
    split at h
    · next hcall =>
      obtain ⟨op, hop, h⟩ := Option.bind_eq_some_iff.mp h
      obtain ⟨t, ht, rfl⟩ := Station.device_eq_some h
      cases ht
      exact .issue hcall hop
    · cases h
  | advance ch =>
    simp only [Station.step] at h
    split at h
    · obtain ⟨i, hi, h⟩ := Option.bind_eq_some_iff.mp h
      obtain ⟨t, ht, rfl⟩ := Station.device_eq_some h
      exact .advance hi ht
    · cases h
  | handle =>
    simp only [Station.step, Option.bind_eq_bind, Option.bind_eq_some_iff, Option.pure_def,
      Option.some.injEq] at h
    obtain ⟨i, hi, c, hc, input, hinput, client, hclient, rfl⟩ := h
    exact .handle hi hc hinput hclient

/-! ## The two parts of a run -/

theorem moduleMoves_concat (tr : List (Move Station StationLabel)) (m : Move Station StationLabel) :
    moduleMoves (tr ++ [m]) = moduleMoves tr ++ moduleMoves [m] := by
  simp [moduleMoves, List.filterMap_append]

theorem clientMoves_concat (tr : List (Move Station StationLabel)) (m : Move Station StationLabel) :
    clientMoves (tr ++ [m]) = clientMoves tr ++ clientMoves [m] := by
  simp [clientMoves, List.filterMap_append]

/-- The client's part of a run is a run of the client. -/
theorem clientMoves_run {o : Options} {tr : List (Move Station StationLabel)} {s : Station}
    (h : (station o).Run tr s) : (client o).Run (clientMoves tr) s.client := by
  refine h.induct (P := fun tr s => (client o).Run (clientMoves tr) s.client) ?_ ?_
  · intro s hs
    obtain ⟨stop, rfl⟩ := hs
    exact .start ⟨stop, rfl⟩
  · intro tr s l s' _ ih hl
    rw [clientMoves_concat]
    cases Station.step_move hl with
    | signal hclient => exact ih.snoc hclient
    | @handle i c input client hcall hc hin hclient =>
      have hmoves : clientMoves [⟨s, .handle, { s with client, call := none }⟩]
          = [⟨s.client, input, client⟩] := by
        simp [clientMoves, StationLabel.client, Station.inProgress, hcall, hc, hin]
      rw [hmoves]
      exact ih.snoc hclient
    | invoke => exact (List.append_nil _).symm ▸ ih
    | other => exact (List.append_nil _).symm ▸ ih
    | issue => exact (List.append_nil _).symm ▸ ih
    | advance => exact (List.append_nil _).symm ▸ ih

/-- The module's part of a run is a run of the module. -/
theorem moduleMoves_run {o : Options} {tr : List (Move Station StationLabel)} {s : Station}
    (h : (station o).Run tr s) : Kernel.machine.Run (moduleMoves tr) s.sys := by
  refine h.induct (P := fun tr s => Kernel.machine.Run (moduleMoves tr) s.sys) ?_ ?_
  · intro s hs
    obtain ⟨stop, rfl⟩ := hs
    exact .start rfl
  · intro tr s l s' _ ih hl
    rw [moduleMoves_concat]
    cases Station.step_move hl with
    | invoke => exact ih.snoc rfl
    | other _ ht => exact ih.snoc ht
    | signal => exact (List.append_nil _).symm ▸ ih
    | @issue op _ hop =>
      have hmoves : moduleMoves [⟨s, .issue,
          { s with sys := s.sys.invoked op, call := some s.sys.callers.length }⟩]
          = [⟨s.sys, .invoke op, s.sys.invoked op⟩] := by
        simp [moduleMoves, StationLabel.device, hop]
      rw [hmoves]
      exact ih.snoc rfl
    | @advance i ch t hcall ht =>
      have hmoves : moduleMoves [⟨s, .advance ch, { s with sys := t }⟩]
          = [⟨s.sys, .step i ch, t⟩] := by
        simp [moduleMoves, StationLabel.device, hcall]
      rw [hmoves]
      exact ih.snoc ht
    | handle => exact (List.append_nil _).symm ▸ ih

/-- A call that is not the monitor's one in progress: no `RESET`, and a read
only when it has returned. -/
inductive Aside : Call → Prop
  | write {a ctl} : Aside (.write a ctl)
  | poll {events ctl} : Aside (.poll events ctl)
  | control {cmd ctl} : cmd ≠ .reset → Aside (.ioctl cmd ctl)
  | read {a res} : Aside (.read a (.returned res))

/-- The monitor's call in progress. -/
inductive Own : Call → Prop
  | read {a ctl} : Own (.read a ctl)
  | poll {events ctl} : Own (.poll events ctl)

theorem aside_of_admitted {op : Op} (h : admitted op = true) : Aside op.call := by
  cases op with
  | read a => cases h
  | write a => exact .write
  | poll events => exact .poll
  | ioctl cmd =>
    refine .control ?_
    intro hreset
    rw [hreset] at h
    cases h

theorem own_of_request {c : Client} {op : Op} (h : c.request = some op) : Own op.call := by
  unfold Client.request at h
  split at h
  · cases h
    exact .poll
  · cases h
    exact .read
  · cases h

theorem Aside.resets {c : Call} (h : Aside c) : c.resets = false := by
  cases h with
  | @control cmd ctl hne =>
    cases cmd with
    | reset => exact absurd rfl hne
    | _ => rfl
  | _ => rfl

theorem Aside.step {c : Call} (h : Aside c) {d : Device} {ch : Choice} {woken : Bool}
    {e : Effect Call} (hm : CallMove d ch woken c e) :
    Aside e.ctl ∧ c.delivers d ch = [] := by
  cases h with
  | write => cases hm <;> exact ⟨.write, rfl⟩
  | poll => cases hm <;> exact ⟨.poll, rfl⟩
  | control hne => cases hm <;> exact ⟨.control hne, rfl⟩
  | read => cases hm

theorem Own.resets {c : Call} (h : Own c) : c.resets = false := by
  cases h <;> rfl

theorem Own.step {c : Call} (h : Own c) {d : Device} {ch : Choice} {woken : Bool}
    {e : Effect Call} (hm : CallMove d ch woken c e) : Own e.ctl := by
  cases h with
  | read => cases hm <;> exact .read
  | poll => cases hm <;> exact .poll

/-- A call whose result was taken up has nothing left to do, and what it took
out of the FIFO is what the client got. -/
theorem Own.handled {c : Call} {input : Input} (h : Own c) (hwf : c.Wf)
    (hin : syscallOutcome c = some input) : Aside c ∧ input.bytes = c.readBytes := by
  cases h with
  | @read a ctl =>
    cases ctl with
    | run pc => cases hin
    | exit res => cases hin
    | returned res =>
      cases hin
      refine ⟨.read, ?_⟩
      -- a negative result carries no bytes
      have hneg : res.ret < 0 → res.bytes = [] := by
        intro hlt
        cases hwf with
        | copied hne hle => exact absurd hlt (by simp)
        | _ => rfl
      show ReadOutcome.bytes _ = res.bytes
      split
      · next hret =>
        have hlt : res.ret < 0 := by
          rw [hret]
          decide
        rw [hneg hlt]
        rfl
      · unfold readOutcome
        split
        · next hlt =>
          rw [hneg hlt]
          rfl
        · rfl
  | @poll events ctl =>
    cases ctl with
    | returned res =>
      cases hin
      exact ⟨.poll, rfl⟩
    | _ => cases hin

/-! ## No byte is lost on the way -/

structure StationInv (tr : List (Move Station StationLabel)) (s : Station) : Prop where
  aside : ∀ i c, s.sys.callAt i = some c → s.call ≠ some i → Aside c
  own : ∀ i, s.call = some i → ∃ c, s.sys.callAt i = some c ∧ Own c
  bytes : (streams (moduleMoves tr)).delivered = deliveredBytes tr ++ s.undelivered

theorem StationInv.start (stop : Bool) : StationInv [] ⟨Sys.fresh, .started stop, none⟩ where
  aside := by simp [Kernel.Sys.callAt, Sys.fresh]
  own := by simp
  bytes := rfl

theorem Op.readBytes_nil (op : Op) : op.call.readBytes = [] := by
  cases op <;> rfl

section Steps

variable {o : Options} {tr : List (Move Station StationLabel)} {s : Station}

/-- A new call moves no byte. -/
theorem StationInv.invoke (h : StationInv tr s) {op : Op} (hop : admitted op = true) :
    StationInv (tr ++ [⟨s, .invoke op, { s with sys := s.sys.invoked op }⟩])
      { s with sys := s.sys.invoked op } := by
  have hat : ∀ i c, s.sys.callAt i = some c → (s.sys.invoked op).callAt i = some c := by
    intro i c hc
    rw [Kernel.Sys.callAt_invoked, if_neg (ne_length_of_callAt hc)]
    exact hc
  have hprog : Station.inProgress { s with sys := s.sys.invoked op } = s.inProgress := by
    unfold Station.inProgress
    cases hcall : s.call with
    | none => rfl
    | some i =>
      obtain ⟨c, hc, -⟩ := h.own i hcall
      exact (hat i c hc).trans hc.symm
  refine ⟨?_, ?_, ?_⟩
  · intro i c hc hi
    have hc : (s.sys.invoked op).callAt i = some c := hc
    rw [Kernel.Sys.callAt_invoked] at hc
    split at hc
    · cases hc
      exact aside_of_admitted hop
    · exact h.aside i c hc hi
  · intro i hi
    obtain ⟨c, hc, hown⟩ := h.own i hi
    exact ⟨c, hat i c hc, hown⟩
  · rw [Station.undelivered, hprog, moduleMoves_concat, deliveredBytes, clientMoves_concat]
    have hclient : clientMoves [⟨s, .invoke op, { s with sys := s.sys.invoked op }⟩] = [] := rfl
    rw [hclient, List.append_nil]
    have hmodule : moduleMoves [⟨s, .invoke op, { s with sys := s.sys.invoked op }⟩]
        = [⟨s.sys, .invoke op, s.sys.invoked op⟩] := rfl
    rw [hmodule, Kernel.streams_snoc]
    exact h.bytes

/-- A call of another process takes nothing out. -/
theorem StationInv.other (h : StationInv tr s) {i : Nat} {ch : Choice} {t : Sys}
    (hne : s.call ≠ some i) (ht : s.sys.step (.step i ch) = some t) :
    StationInv (tr ++ [⟨s, .other i ch, { s with sys := t }⟩]) { s with sys := t } := by
  obtain ⟨c, e, hc, hm, rfl⟩ := Sys.step_step ht
  have haside := h.aside i c.call (Kernel.Sys.callAt_of hc) hne
  obtain ⟨haside', hdelivers⟩ := haside.step hm
  have hat : ∀ j, s.call = some j → (s.sys.after i e).callAt j = s.sys.callAt j := by
    intro j hj
    rw [Kernel.Sys.callAt_after hc, if_neg]
    intro hij
    exact hne (hij ▸ hj)
  have hprog : Station.inProgress { s with sys := s.sys.after i e } = s.inProgress := by
    unfold Station.inProgress
    cases hcall : s.call with
    | none => rfl
    | some j => exact hat j hcall
  refine ⟨?_, ?_, ?_⟩
  · intro j b hb hj
    have hb : (s.sys.after i e).callAt j = some b := hb
    rw [Kernel.Sys.callAt_after hc] at hb
    split at hb
    · cases hb
      exact haside'
    · exact h.aside j b hb hj
  · intro j hj
    obtain ⟨b, hb, hown⟩ := h.own j hj
    exact ⟨b, (hat j hj).trans hb, hown⟩
  · rw [Station.undelivered, hprog, moduleMoves_concat, deliveredBytes, clientMoves_concat]
    have hclient : clientMoves [⟨s, .other i ch, { s with sys := s.sys.after i e }⟩] = [] := rfl
    have hmodule : moduleMoves [⟨s, .other i ch, { s with sys := s.sys.after i e }⟩]
        = [⟨s.sys, .step i ch, s.sys.after i e⟩] := rfl
    rw [hclient, List.append_nil, hmodule, delivered_step _ hc haside.resets, hdelivers,
      List.append_nil]
    exact h.bytes

/-- The monitor makes its next call. -/
theorem StationInv.issue (h : StationInv tr s) {op : Op} (hcall : s.call = none)
    (hop : s.client.request = some op) :
    StationInv (tr ++ [⟨s, .issue,
        { s with sys := s.sys.invoked op, call := some s.sys.callers.length }⟩])
      { s with sys := s.sys.invoked op, call := some s.sys.callers.length } := by
  have hat : (s.sys.invoked op).callAt s.sys.callers.length = some op.call := by
    rw [Kernel.Sys.callAt_invoked, if_pos rfl]
  have hprog : Station.inProgress
      { s with sys := s.sys.invoked op, call := some s.sys.callers.length } = some op.call := hat
  refine ⟨?_, ?_, ?_⟩
  · intro i c hc hi
    have hc : (s.sys.invoked op).callAt i = some c := hc
    rw [Kernel.Sys.callAt_invoked, if_neg (fun hlen => hi (by rw [hlen]))] at hc
    exact h.aside i c hc (by simp [hcall])
  · intro i hi
    cases hi
    exact ⟨op.call, hat, own_of_request hop⟩
  · have hbytes := h.bytes
    have hnone : s.undelivered = [] := by simp [Station.undelivered, Station.inProgress, hcall]
    rw [hnone, List.append_nil] at hbytes
    have hclient : clientMoves [⟨s, .issue,
        { s with sys := s.sys.invoked op, call := some s.sys.callers.length }⟩] = [] := rfl
    have hmodule : moduleMoves [⟨s, .issue,
        { s with sys := s.sys.invoked op, call := some s.sys.callers.length }⟩]
        = [⟨s.sys, .invoke op, s.sys.invoked op⟩] := by
      simp [moduleMoves, StationLabel.device, hop]
    rw [Station.undelivered, hprog, moduleMoves_concat, deliveredBytes, clientMoves_concat,
      hclient, List.append_nil, hmodule, Kernel.streams_snoc]
    simp only [Option.map_some, Option.getD_some, Op.readBytes_nil, List.append_nil]
    exact hbytes

/-- A signal moves no byte. -/
theorem StationInv.signal (h : StationInv tr s) (client : Client) :
    StationInv (tr ++ [⟨s, .signal, { s with client }⟩]) { s with client } := by
  refine ⟨h.aside, h.own, ?_⟩
  have hclient : clientMoves [⟨s, .signal, { s with client }⟩] = [⟨s.client, .signal, client⟩] := rfl
  have hmodule : moduleMoves [⟨s, .signal, { s with client }⟩] = [] := rfl
  have hdata : dataRead (clientMoves tr ++ [⟨s.client, .signal, client⟩]) = deliveredBytes tr := by
    rw [dataRead_concat]
    exact List.append_nil _
  rw [moduleMoves_concat, hmodule, List.append_nil, deliveredBytes, clientMoves_concat, hclient,
    hdata]
  exact h.bytes

/-- What the monitor's call takes out is in its result. -/
theorem StationInv.advance (h : StationInv tr s) {i : Nat} {ch : Choice} {t : Sys}
    (hcall : s.call = some i) (ht : s.sys.step (.step i ch) = some t) :
    StationInv (tr ++ [⟨s, .advance ch, { s with sys := t }⟩]) { s with sys := t } := by
  obtain ⟨c, e, hc, hm, rfl⟩ := Sys.step_step ht
  obtain ⟨b, hb, hown⟩ := h.own i hcall
  cases (Kernel.Sys.callAt_of hc).symm.trans hb
  have hat : (s.sys.after i e).callAt i = some e.ctl := by
    rw [Kernel.Sys.callAt_after hc, if_pos rfl]
  have hprog : s.inProgress = some c.call := by
    rw [Station.inProgress, hcall]
    exact hb
  have hprog' : Station.inProgress { s with sys := s.sys.after i e } = some e.ctl := by
    rw [Station.inProgress, hcall]
    exact hat
  refine ⟨?_, ?_, ?_⟩
  · intro j b hb hj
    have hb : (s.sys.after i e).callAt j = some b := hb
    rw [Kernel.Sys.callAt_after hc, if_neg (fun hij => hj (by rw [← hij]; exact hcall))] at hb
    exact h.aside j b hb hj
  · intro j hj
    cases hcall.symm.trans hj
    exact ⟨e.ctl, hat, hown.step hm⟩
  · have hbytes := h.bytes
    rw [Station.undelivered, hprog] at hbytes
    have hclient : clientMoves [⟨s, .advance ch, { s with sys := s.sys.after i e }⟩] = [] := rfl
    have hmodule : moduleMoves [⟨s, .advance ch, { s with sys := s.sys.after i e }⟩]
        = [⟨s.sys, .step i ch, s.sys.after i e⟩] := by
      simp [moduleMoves, StationLabel.device, hcall]
    rw [Station.undelivered, hprog', moduleMoves_concat, deliveredBytes, clientMoves_concat,
      hclient, List.append_nil, hmodule, delivered_step _ hc hown.resets, hbytes]
    simp only [Option.map_some, Option.getD_some, hm.readBytes, List.append_assoc]
    rfl

/-- The client takes over exactly what its call took out. -/
theorem StationInv.handle (h : StationInv tr s) (hi : s.sys.Inv) {i : Nat} {c : Call}
    {input : Input} {client : Client} (hcall : s.call = some i) (hc : s.sys.callAt i = some c)
    (hin : syscallOutcome c = some input) :
    StationInv (tr ++ [⟨s, .handle, { s with client, call := none }⟩])
      { s with client, call := none } := by
  obtain ⟨b, hb, hown⟩ := h.own i hcall
  cases hc.symm.trans hb
  have hwf : c.Wf := by
    obtain ⟨caller, hcaller, rfl⟩ := Option.map_eq_some_iff.mp hc
    exact hi.calls caller (List.mem_of_getElem? hcaller)
  obtain ⟨haside, hbytes⟩ := hown.handled hwf hin
  have hprog : s.inProgress = some c := by
    rw [Station.inProgress, hcall]
    exact hc
  refine ⟨?_, by simp, ?_⟩
  · intro j b hb _
    by_cases hij : i = j
    · subst hij
      cases hc.symm.trans hb
      exact haside
    · exact h.aside j b hb (by simpa [hcall] using hij)
  · have hclient : clientMoves [⟨s, .handle, { s with client, call := none }⟩]
        = [⟨s.client, input, client⟩] := by
      simp [clientMoves, StationLabel.client, hprog, hin]
    have hmodule : moduleMoves [⟨s, .handle, { s with client, call := none }⟩] = [] := rfl
    have hundelivered : Station.undelivered { s with client, call := none } = [] := rfl
    rw [moduleMoves_concat, hmodule, List.append_nil, deliveredBytes, clientMoves_concat, hclient,
      dataRead_concat, hundelivered, List.append_nil, hbytes, h.bytes, Station.undelivered, hprog]
    rfl

end Steps

/-- The invariant holds in every run. -/
theorem stationInv_of_run {o : Options} {tr : List (Move Station StationLabel)} {s : Station}
    (h : (station o).Run tr s) : StationInv tr s := by
  refine h.induct ?_ ?_
  · intro s hs
    obtain ⟨stop, rfl⟩ := hs
    exact .start stop
  · intro tr s l s' hr ih hl
    cases Station.step_move hl with
    | invoke hop => exact ih.invoke hop
    | other hne ht => exact ih.other hne ht
    | signal _ => exact ih.signal _
    | issue hcall hop => exact ih.issue hcall hop
    | advance hcall ht => exact ih.advance hcall ht
    | handle hcall hc hin _ =>
      exact ih.handle (Kernel.machine_inv (moduleMoves_run hr)) hcall hc hin

/-! ## The report on a run -/

/-- What the line events of the monitor say about the stream. -/
structure ChunkFree (o : Options) (tr : List (Move Station StationLabel)) (s : Station) : Prop where
  /-- What was written is what the monitor was given, what its read in
  progress has taken, and what is queued. -/
  stream : writtenBytes tr = deliveredBytes tr ++ s.undelivered ++ s.sys.dev.fifo
  /-- The lines are those of the bytes delivered so far, in one call. -/
  delivered : inputLines s.client.log = (consumeInput o .empty 0 (deliveredBytes tr)).lines
  /-- They come first among those of the whole stream in one call, whatever
  is written later. -/
  whole : ∀ later,
    inputLines s.client.log <+: (consumeInput o .empty 0 (writtenBytes tr ++ later)).lines
  /-- Every sequence of chunks stays inside the array. -/
  inBounds : ∀ chunks, ∃ rs, consumeChunksRaw o .zeroed 0 chunks = some rs ∧
    List.Forall₂ RawConsumed.Agrees rs (consumeChunks o .empty 0 chunks)

/-- **Chunking does not matter to the client**, over every interleaving of
the monitor with writers, control calls and signals. -/
theorem monitor_lines_chunk_free {o : Options} (ho : o.StopsInside)
    {tr : List (Move Station StationLabel)} {s : Station} (h : (station o).Run tr s) :
    ChunkFree o tr s := by
  have hinv := stationInv_of_run h
  have hlines := (parsed_of_run (clientMoves_run h)).lines
  have hstream : writtenBytes tr = deliveredBytes tr ++ s.undelivered ++ s.sys.dev.fifo := by
    rw [writtenBytes, Kernel.streams_conserved (moduleMoves_run h), hinv.bytes]
  refine ⟨hstream, hlines, ?_, fun chunks =>
    consumeChunksRaw_agrees ho chunks RawBuffer.zeroed_holds 0⟩
  intro later
  rw [hlines]
  apply consumeInput_lines_mono
  rw [hstream, List.append_assoc, List.append_assoc]
  exact List.prefix_append _ _

theorem oneOptions_stopsInside : oneOptions.StopsInside := by
  intro s
  unfold oneOptions
  simp only
  split
  · next hs => simp [hs]
  · exact Nat.zero_le _

/-- A reading is written, reads are capped at one byte, and the monitor reads
twice. -/
def oneByteReads : List StationLabel := List.flatten [
  [.invoke (.write ⟨[0x31, 0x0a], true⟩)], List.replicate 6 (.other 0 { reach := 2 }),
  [.invoke (.ioctl (.setFault ⟨Kernel.faultPartialRead, 0, 0, 1⟩))],
  List.replicate 5 (.other 1 { reach := 16 }),
  [.issue], List.replicate 6 (.advance { reach := 512 }), [.handle],
  [.issue], List.replicate 5 (.advance { reach := 512 }), [.handle],
  [.issue], List.replicate 6 (.advance { reach := 512 }), [.handle],
  [.issue], List.replicate 5 (.advance { reach := 512 }), [.handle]]

theorem monitor_lines_chunk_free_capped : ∃ tr s, (station oneOptions).Run tr s ∧
    ChunkFree oneOptions tr s ∧ deliveredBytes tr = [0x31, 0x0a] ∧
    s.client.log = [.simple .monitorStarted, .temperature oneDegree] := by
  have hrun : ((station oneOptions).replay ⟨Sys.fresh, .started false, none⟩ oneByteReads).map
      (fun p => (deliveredBytes p.1, p.2.client.log))
        = some ([0x31, 0x0a], [.simple .monitorStarted, .temperature oneDegree]) := by
    decide +kernel
  obtain ⟨tr, s, hr, heq⟩ := Lts.exists_run_of_replay (M := station oneOptions) ⟨false, rfl⟩ hrun
  simp only [Prod.mk.injEq] at heq
  exact ⟨tr, s, hr, monitor_lines_chunk_free oneOptions_stopsInside hr, heq⟩

end VDevLab.Monitor
