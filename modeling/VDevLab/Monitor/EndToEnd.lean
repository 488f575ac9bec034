import VDevLab.Monitor.Injection
import VDevLab.Monitor.Retries

/-!
# Injected errors and logged retries

The number of EIO occurrences that a scenario injects is the number of
retries that the monitor logs, up to its limit of three. The invariant puts
the stages of the fault, the monitor's call in progress and the shape of its
log side by side; every step of the module or the monitor keeps it.
-/

namespace VDevLab.Monitor

open Kernel (Sys Call Op Choice Caller CallMove Effect eioReturns streams)

/-! ## What is under way -/

/-- The monitor's call in progress. -/
def World.inProgress (w : World) : Option Call := w.call.bind w.sys.callAt

/-- The occurrence that was consumed by the read in progress, if it was. -/
def World.pending (w : World) : Nat := (w.inProgress.map fun c => c.returnsEio.toNat).getD 0

/-- The bytes that the read in progress took out of the FIFO. -/
def World.undelivered (w : World) : List UInt8 :=
  (w.inProgress.map Call.readBytes).getD []

/-- The monitor has taken up the results of all its reads so far. -/
def World.Handled (w : World) : Prop := ∀ c ∈ w.inProgress, c.readResult = none

/-- The bytes that the monitor takes over in a move: those of a successful
read. -/
def receives (m : Move World WorldLabel) : Option (List UInt8) :=
  match m.label, m.pre.inProgress.bind callOutcome with
  | .handle, some (.read (.returned bytes)) => some bytes
  | _, _ => none

/-- All bytes that the monitor received, in order. -/
def received (tr : List (Move World WorldLabel)) : List UInt8 := (tr.filterMap receives).flatten

/-! ## The invariant -/

structure Inv (n : UInt32) (tr : List (Move World WorldLabel)) (w : World) : Prop where
  others : ∀ i c, w.sys.callAt i = some c → w.call ≠ some i → Background n w.control i c
  current : ∀ i, w.call = some i →
    ∃ c, w.sys.callAt i = some c ∧ Flight n.toNat (eioReturns w.sys) w.client.pc c
  stage : Stage n.toNat w
  log : ∃ h, h + w.pending = eioReturns w.sys ∧ Shape n.toNat h w.client
  bytes : (streams (deviceMoves tr)).delivered = received tr ++ w.undelivered
  recovery : ∀ k, .recovery k ∈ w.client.log →
    ∃ m ∈ tr, (receives m).isSome = true ∧ eioReturns m.pre.sys = n.toNat

theorem Inv.start (n : UInt32) : Inv n [] ⟨Sys.fresh, .started false, none, none⟩ where
  others := by simp [Kernel.Sys.callAt, Sys.fresh]
  current := by simp
  stage := .waiting rfl rfl
  log := ⟨0, rfl, .counting (p := [.simple .monitorStarted]) (by omega) rfl
    (by simp [LogLine.Calm]) rfl⟩
  bytes := rfl
  recovery := by simp [Client.started]

theorem callAt_length (s : Sys) : s.callAt s.callers.length = none := by
  simp [Kernel.Sys.callAt]

/-- A call that is there is not the next one. -/
theorem ne_length_of_callAt {s : Sys} {i : Nat} {c : Call} (h : s.callAt i = some c) :
    i ≠ s.callers.length := by
  rintro rfl
  rw [callAt_length] at h
  cases h

theorem received_concat (tr : List (Move World WorldLabel)) (m : Move World WorldLabel) :
    received (tr ++ [m]) = received tr ++ (receives m).getD [] := by
  cases h : receives m <;> simp [received, List.filterMap_append, h]

/-- What a step of a call that is no reset adds to what was delivered. -/
theorem delivered_step (tr : List (Move Sys Kernel.Label)) {s t : Sys} {i : Nat} {ch : Choice}
    {c : Caller} (hc : s.callers[i]? = some c) (hreset : c.call.resets = false) :
    (streams (tr ++ [⟨s, .step i ch, t⟩])).delivered =
      (streams tr).delivered ++ c.call.delivers s.dev ch := by
  rw [Kernel.streams_snoc]
  simp [Kernel.Streams.after, hc, hreset]

section Steps

variable {n : UInt32} {tr : List (Move World WorldLabel)} {w : World}

/-- The monitor's call in progress, as the module sees it. -/
theorem Inv.inFlight (h : Inv n tr w) {i : Nat} {c : Caller} (hcall : w.call = some i)
    (hc : w.sys.callers[i]? = some c) :
    w.inProgress = some c.call ∧ Flight n.toNat (eioReturns w.sys) w.client.pc c.call := by
  obtain ⟨b, hb, hflight⟩ := h.current i hcall
  cases (Kernel.Sys.callAt_of hc).symm.trans hb
  refine ⟨?_, hflight⟩
  rw [World.inProgress, hcall]
  exact hb

/-- A new call changes nothing about those in progress. -/
theorem Inv.inProgress_invoked (h : Inv n tr w) {w' : World} {op : Op}
    (hsys : w'.sys = w.sys.invoked op) (hcall : w'.call = w.call) :
    w'.inProgress = w.inProgress := by
  unfold World.inProgress
  rw [hcall]
  cases hi : w.call with
  | none => rfl
  | some i =>
    obtain ⟨c, hc, -⟩ := h.current i hi
    show w'.sys.callAt i = w.sys.callAt i
    rw [hsys, Kernel.Sys.callAt_invoked, if_neg (ne_length_of_callAt hc)]

theorem Stage.invoked {n : Nat} {w w' : World} (h : Stage n w) {op : Op}
    (hsys : w'.sys = w.sys.invoked op) (hcontrol : w.control ≠ none → w'.control = w.control) :
    Stage n w' := by
  have hk : eioReturns w'.sys = eioReturns w.sys := by
    rw [hsys, Kernel.eioReturns_invoked]
  have hdev : w'.sys.dev = w.sys.dev := by rw [hsys]; rfl
  have harmed : w.Armed → w'.Armed := by
    intro h
    obtain ⟨j, c, hj, hc, hinj⟩ := h
    refine ⟨j, c, (hcontrol (by simp [hj])).trans hj, ?_, hinj⟩
    rw [hsys, Kernel.Sys.callAt_invoked, if_neg (ne_length_of_callAt hc)]
    exact hc
  cases h with
  | waiting h0 hf => exact .waiting (hk.trans h0) (by rw [hdev, hf])
  | active ha hlt ht hsum =>
    exact .active (harmed ha) (hk ▸ hlt) (by rw [hdev]; exact ht) (by rw [hk, hdev]; exact hsum)
  | spent ha heq hf => exact .spent (harmed ha) (hk.trans heq) (by rw [hdev, hf])

/-- Another process makes a call. -/
theorem Inv.invoke (h : Inv n tr w) {w' : World} {op : Op} {l : WorldLabel}
    (hsys : w'.sys = w.sys.invoked op) (hcall : w'.call = w.call) (hclient : w'.client = w.client)
    (hcontrol : w.control ≠ none → w'.control = w.control)
    (hop : Background n w'.control w.sys.callers.length op.call)
    (hlabel : l.device w = some (.invoke op)) (hl : l ≠ .handle) :
    Inv n (tr ++ [⟨w, l, w'⟩]) w' := by
  have hk : eioReturns w'.sys = eioReturns w.sys := by rw [hsys, Kernel.eioReturns_invoked]
  have hprog := h.inProgress_invoked hsys hcall
  have hreceives : receives ⟨w, l, w'⟩ = none := by
    cases l <;> first | rfl | exact absurd rfl hl
  refine ⟨?_, ?_, h.stage.invoked hsys hcontrol, ?_, ?_, ?_⟩
  · intro i c hc hi
    rw [hsys, Kernel.Sys.callAt_invoked] at hc
    split at hc
    · next hlen =>
      cases hc
      exact hlen ▸ hop
    · -- the control call, once made, stays the only one
      have hback := h.others i c hc (hcall ▸ hi)
      cases hback with
      | write => exact .write
      | control hi ht hr => exact .control ((hcontrol (by simp [hi])).trans hi) ht hr
      | read => exact .read
      | poll => exact .poll
  · intro i hi
    rw [hcall] at hi
    obtain ⟨c, hc, hflight⟩ := h.current i hi
    refine ⟨c, ?_, ?_⟩
    · rw [hsys, Kernel.Sys.callAt_invoked, if_neg (ne_length_of_callAt hc)]
      exact hc
    · rw [hk, hclient]
      exact hflight
  · rw [World.pending, hprog, hk, hclient]
    exact h.log
  · have hmoves : deviceMoves [⟨w, l, w'⟩] = [⟨w.sys, .invoke op, w'.sys⟩] := by
      simp [deviceMoves, hlabel]
    rw [deviceMoves_concat, hmoves, Kernel.streams_snoc, received_concat, hreceives,
      World.undelivered, hprog]
    simp only [Kernel.Streams.after, Option.getD_none, List.append_nil]
    exact h.bytes
  · rw [hclient]
    intro k hmem
    obtain ⟨m, hm, hr⟩ := h.recovery k hmem
    exact ⟨m, List.mem_append_left _ hm, hr⟩

/-- A call of another process leaves the monitor's call alone. -/
theorem World.inProgress_after {i : Nat} {c : Caller} (hc : w.sys.callers[i]? = some c)
    (e : Effect Call) (hne : w.call ≠ some i) :
    World.inProgress { w with sys := w.sys.after i e } = w.inProgress := by
  unfold World.inProgress
  cases hj : w.call with
  | none => rfl
  | some j =>
    show (w.sys.after i e).callAt j = w.sys.callAt j
    rw [Kernel.Sys.callAt_after hc, if_neg (by rintro rfl; exact hne hj)]

/-- What the log says stays true while the client prints nothing. -/
theorem Inv.recovery_concat (h : Inv n tr w) (m : Move World WorldLabel) {log : List LogLine}
    (hlog : log = w.client.log) : ∀ k, .recovery k ∈ log →
      ∃ m' ∈ tr ++ [m], (receives m').isSome = true ∧ eioReturns m'.pre.sys = n.toNat := by
  intro k hmem
  obtain ⟨m', hm', hr⟩ := h.recovery k (hlog ▸ hmem)
  exact ⟨m', List.mem_append_left _ hm', hr⟩

/-- A call of another process makes a step. -/
theorem Inv.other (h : Inv n tr w) (hn : n ≠ 0) (hi : w.sys.Inv) {i : Nat} {ch : Choice}
    {c : Caller} {e : Effect Call} (hne : w.call ≠ some i) (hc : w.sys.callers[i]? = some c)
    (hm : CallMove w.sys.dev ch c.woken c.call e) :
    Inv n (tr ++ [⟨w, .other i ch, { w with sys := w.sys.after i e }⟩])
      { w with sys := w.sys.after i e } := by
  have hback := h.others i c.call (Kernel.Sys.callAt_of hc) hne
  obtain ⟨hback', hs, hdel, hreset⟩ := hback.step hm
  -- only reads consume, and the monitor makes all of them
  have hk : eioReturns (w.sys.after i e) = eioReturns w.sys := by
    rcases Kernel.eioReturns_step hi hc hm with ⟨hs', -⟩ | ⟨-, -, hk⟩
    · rw [hs] at hs'
      cases hs'
    · exact hk
  have hprog := World.inProgress_after hc e hne
  have hstores := fun hr => hback.stores (hi.calls c (List.mem_of_getElem? hc)) hr
  refine ⟨?_, ?_, h.stage.after hn hi hc hm hstores, ?_, ?_, h.recovery_concat _ rfl⟩
  · intro j b hb hj
    rw [Kernel.Sys.callAt_after hc] at hb
    split at hb
    · next hij =>
      cases hb
      exact hij ▸ hback'
    · exact h.others j b hb hj
  · intro j hj
    obtain ⟨b, hb, hflight⟩ := h.current j hj
    refine ⟨b, ?_, ?_⟩
    · rw [Kernel.Sys.callAt_after hc, if_neg (by rintro rfl; exact hne hj)]
      exact hb
    · show Flight _ (eioReturns (w.sys.after i e)) _ _
      rw [hk]
      exact hflight
  · rw [World.pending, hprog]
    show ∃ h, _ = eioReturns (w.sys.after i e) ∧ _
    rw [hk]
    exact h.log
  · have hmoves : deviceMoves [⟨w, .other i ch, { w with sys := w.sys.after i e }⟩]
        = [⟨w.sys, .step i ch, w.sys.after i e⟩] := rfl
    rw [deviceMoves_concat, hmoves, delivered_step _ hc hreset, hdel, List.append_nil,
      received_concat, World.undelivered, hprog]
    simp only [receives, Option.getD_none, List.append_nil]
    exact h.bytes

/-- The monitor makes its next call. -/
theorem Inv.issue (h : Inv n tr w) {op : Op} (hcall : w.call = none)
    (hop : w.client.request = some op) :
    Inv n (tr ++ [⟨w, .issue,
        { w with sys := w.sys.invoked op, call := some w.sys.callers.length }⟩])
      { w with sys := w.sys.invoked op, call := some w.sys.callers.length } := by
  have hat : (w.sys.invoked op).callAt w.sys.callers.length = some op.call := by
    rw [Kernel.Sys.callAt_invoked, if_pos rfl]
  have hprog : World.inProgress
      { w with sys := w.sys.invoked op, call := some w.sys.callers.length } = some op.call := hat
  -- what is asked for is what the program counter waits for
  have hflight : Flight n.toNat (eioReturns w.sys) w.client.pc op.call := by
    unfold Client.request at hop
    split at hop
    · next hpc =>
      cases hop
      rw [hpc]
      exact .poll
    · next hpc =>
      cases hop
      rw [hpc]
      exact .start
    · cases hop
  refine ⟨?_, ?_, h.stage.invoked rfl (fun _ => rfl), ?_, ?_, h.recovery_concat _ rfl⟩
  · intro i c hc hi
    have hc : (w.sys.invoked op).callAt i = some c := hc
    rw [Kernel.Sys.callAt_invoked, if_neg (fun hlen => hi (by rw [hlen]))] at hc
    exact h.others i c hc (by simp [hcall])
  · intro i hi
    cases hi
    refine ⟨op.call, hat, ?_⟩
    show Flight _ (eioReturns (w.sys.invoked op)) _ _
    rw [Kernel.eioReturns_invoked]
    exact hflight
  · obtain ⟨k, hk, hshape⟩ := h.log
    refine ⟨k, ?_, hshape⟩
    have hzero : w.pending = 0 := by simp [World.pending, World.inProgress, hcall]
    rw [World.pending, hprog]
    show _ = eioReturns (w.sys.invoked op)
    rw [Kernel.eioReturns_invoked, ← hk, hzero]
    simp [op.returnsEio]
  · have hmoves : deviceMoves [⟨w, .issue,
        { w with sys := w.sys.invoked op, call := some w.sys.callers.length }⟩]
        = [⟨w.sys, .invoke op, w.sys.invoked op⟩] := by
      simp [deviceMoves, WorldLabel.device, hop]
    have hbytes := h.bytes
    have hnone : w.undelivered = [] := by simp [World.undelivered, World.inProgress, hcall]
    have hresult : op.call.readBytes = [] := by cases op <;> rfl
    rw [hnone, List.append_nil] at hbytes
    rw [deviceMoves_concat, hmoves, Kernel.streams_snoc, received_concat, World.undelivered, hprog]
    simp only [Kernel.Streams.after, receives, Option.map_some, Option.getD_some, hresult,
      Option.getD_none, List.append_nil]
    exact hbytes

/-- The monitor's call makes a step. -/
theorem Inv.advance (h : Inv n tr w) (hn : n ≠ 0) (hi : w.sys.Inv) {i : Nat} {ch : Choice}
    {c : Caller} {e : Effect Call} (hsignal : ch.signal = false)
    (hreach : monitorRead.count ≤ ch.reach) (hcall : w.call = some i)
    (hc : w.sys.callers[i]? = some c) (hm : CallMove w.sys.dev ch c.woken c.call e) :
    Inv n (tr ++ [⟨w, .advance ch, { w with sys := w.sys.after i e }⟩])
      { w with sys := w.sys.after i e } := by
  obtain ⟨hprog, hflight⟩ := h.inFlight hcall hc
  obtain ⟨hstores, hreset⟩ := hflight.no_control
  have hat : (w.sys.after i e).callAt i = some e.ctl := by
    rw [Kernel.Sys.callAt_after hc, if_pos rfl]
  have hprog' : World.inProgress { w with sys := w.sys.after i e } = some e.ctl := by
    rw [World.inProgress, hcall]
    exact hat
  have hstage := h.stage.after hn hi hc hm fun hr => by rw [hstores] at hr; cases hr
  refine ⟨?_, ?_, hstage, ?_, ?_, h.recovery_concat _ rfl⟩
  · intro j b hb hj
    have hb : (w.sys.after i e).callAt j = some b := hb
    rw [Kernel.Sys.callAt_after hc, if_neg (by rintro rfl; exact hj hcall)] at hb
    exact h.others j b hb hj
  · intro j hj
    cases hcall.symm.trans hj
    exact ⟨e.ctl, hat, hflight.step hi h.stage hc hsignal hreach hm⟩
  · obtain ⟨k, hk, hshape⟩ := h.log
    refine ⟨k, ?_, hshape⟩
    rw [World.pending, hprog, Option.map_some, Option.getD_some] at hk
    rw [World.pending, hprog', Option.map_some, Option.getD_some]
    show _ = eioReturns (w.sys.after i e)
    -- a consumed occurrence is pending until the result is taken up
    rcases Kernel.eioReturns_step hi hc hm with ⟨-, -, hfalse, htrue, hk'⟩ | ⟨-, hsame, hk'⟩
    · rw [hfalse, Bool.toNat_false] at hk
      rw [htrue, Bool.toNat_true, hk', ← hk]
    · rw [hsame, hk', hk]
  · have hmoves : deviceMoves [⟨w, .advance ch, { w with sys := w.sys.after i e }⟩]
        = [⟨w.sys, .step i ch, w.sys.after i e⟩] := by
      simp [deviceMoves, WorldLabel.device, hcall]
    have hbytes := h.bytes
    rw [World.undelivered, hprog] at hbytes
    rw [deviceMoves_concat, hmoves, delivered_step _ hc hreset, received_concat, hbytes,
      World.undelivered, hprog', List.append_assoc]
    simp only [receives, Option.getD_none, List.append_nil, Option.map_some, Option.getD_some,
      hm.readBytes]

/-! ## The monitor takes up a result -/

/-- What the client makes of the result of its call. -/
inductive Taken (o : Options) (n k : Nat) (cl : Client) (c : Call) : Client → Prop
  | quiet {cl'} : (∀ bytes, callOutcome c ≠ some (.read (.returned bytes))) →
      c.returnsEio = false → c.readBytes = [] →
      cl'.eioRetries = cl.eioRetries → cl'.log = cl.log → Taken o n k cl c cl'
  | data {bytes} : (k = 0 ∨ k = n) → callOutcome c = some (.read (.returned bytes)) →
      c.returnsEio = false → c.readBytes = bytes →
      Taken o n k cl c (cl.received o bytes)
  | eio : callOutcome c = some (.read (.failed EIO)) → c.returnsEio = true →
      c.readBytes = [] → Taken o n k cl c (cl.readFailed EIO)

theorem Flight.taken {o : Options} {n k : Nat} {cl cl' : Client} {c : Call} {input : Input}
    (h : Flight n k cl.pc c) (hin : callOutcome c = some input)
    (hs : cl.step o input = some cl') : Taken o n k cl c cl' := by
  generalize hpc : cl.pc = pc at h
  cases h with
  | @poll ctl =>
    cases ctl with
    | returned res =>
      cases hin
      simp only [Client.step, if_pos hpc, Option.some.injEq] at hs
      subst hs
      cases cl.polled_move (pollOutcome res) with
      | quiet _ hretries hlog => exact .quiet (fun bytes hb => by cases hb) rfl rfl hretries hlog
    | _ => cases hin
  | @again ctl hk hctl =>
    cases ctl with
    | returned res =>
      cases hctl
      cases hin
      simp only [Client.step, if_pos hpc, Option.some.injEq] at hs
      subst hs
      exact .quiet (fun bytes hb => by cases hb) rfl rfl rfl rfl
    | _ => cases hin
  | @data ctl bytes hk hne hctl =>
    cases ctl with
    | returned res =>
      cases hctl
      -- a length is not negative, so `read` does not fail
      have houtcome : readOutcome ⟨bytes.length, bytes⟩ = .returned bytes := by
        rw [readOutcome, if_neg (by simp)]
      rw [callOutcome, houtcome] at hin
      cases hin
      simp only [Client.step, if_pos hpc, Client.afterRead, if_neg hne, Option.some.injEq] at hs
      subst hs
      refine .data hk (by rw [callOutcome, houtcome]) ?_ rfl
      simp [Call.returnsEio, Kernel.Ctl.committed, Kernel.natCast_ne_neg_eio]
    | _ => cases hin
  | @eio ctl hctl =>
    cases ctl with
    | returned res =>
      cases hctl
      cases hin
      simp only [Client.step, if_pos hpc, Client.afterRead, Option.some.injEq] at hs
      subst hs
      exact .eio rfl rfl rfl
    | _ => cases hin
  | _ => cases hin

/-- A call whose result was taken up has nothing left to do. -/
theorem Flight.background {k m : Nat} {pc : Pc} {c : Call} {input : Input} (h : Flight m k pc c)
    (hin : callOutcome c = some input) (control : Option Nat) (i : Nat) :
    Background n control i c := by
  cases c with
  | read a ctl =>
    cases ctl with
    | returned res => exact .read
    | _ => cases hin
  | poll events ctl =>
    cases ctl with
    | returned res => exact .poll
    | _ => cases hin
  | _ => cases h

theorem Stage.of_eq {n : Nat} {w w' : World} (h : Stage n w) (hsys : w'.sys = w.sys)
    (hcontrol : w'.control = w.control) : Stage n w' := by
  have harmed : w.Armed → w'.Armed := by
    intro ha
    unfold World.Armed
    rw [hsys, hcontrol]
    exact ha
  cases h with
  | waiting h0 hf => exact .waiting (hsys ▸ h0) (hsys ▸ hf)
  | active ha hlt ht hsum => exact .active (harmed ha) (hsys ▸ hlt) (hsys ▸ ht) (hsys ▸ hsum)
  | spent ha heq hf => exact .spent (harmed ha) (hsys ▸ heq) (hsys ▸ hf)

/-- Only data is received. -/
theorem receives_eq_none {w' : World} {c : Call} (hprog : w.inProgress = some c)
    (hnot : ∀ bytes, callOutcome c ≠ some (.read (.returned bytes))) :
    receives ⟨w, .handle, w'⟩ = none := by
  unfold receives
  split
  · next bytes _ hb =>
    rw [hprog] at hb
    exact absurd hb (hnot bytes)
  · rfl

theorem ne_returned_of_failed {c : Call} {errno : Errno}
    (h : callOutcome c = some (.read (.failed errno))) (bytes : List UInt8) :
    callOutcome c ≠ some (.read (.returned bytes)) := by
  intro hb
  cases h.symm.trans hb

theorem receives_eq_some {w' : World} {c : Call} {bytes : List UInt8}
    (hprog : w.inProgress = some c) (hout : callOutcome c = some (.read (.returned bytes))) :
    receives ⟨w, .handle, w'⟩ = some bytes := by
  simp [receives, hprog, hout]

/-- The monitor goes on with the result of its call. -/
theorem Inv.handle (h : Inv n tr w) {o : Options} {i : Nat} {c : Caller} {input : Input}
    {client : Client} (hcall : w.call = some i) (hc : w.sys.callers[i]? = some c)
    (hin : callOutcome c.call = some input) (hs : w.client.step o input = some client) :
    Inv n (tr ++ [⟨w, .handle, { w with client, call := none }⟩])
      { w with client, call := none } := by
  obtain ⟨hprog, hflight⟩ := h.inFlight hcall hc
  obtain ⟨hmove, hpc⟩ := Client.step_move hs
  obtain ⟨k, hk, hshape⟩ := h.log
  have hbytes := h.bytes
  rw [World.pending, hprog, Option.map_some, Option.getD_some] at hk
  rw [World.undelivered, hprog, Option.map_some, Option.getD_some] at hbytes
  have hothers : ∀ j b, w.sys.callAt j = some b → Background n w.control j b := by
    intro j b hb
    by_cases hij : i = j
    · subst hij
      cases (Kernel.Sys.callAt_of hc).symm.trans hb
      exact hflight.background hin _ _
    · exact h.others j b hb (by simpa [hcall] using hij)
  have hstage : Stage n.toNat { w with client, call := none } := h.stage.of_eq rfl rfl
  have hmoves : deviceMoves (tr ++ [⟨w, .handle, { w with client, call := none }⟩])
      = deviceMoves tr := by
    rw [deviceMoves_concat]
    exact List.append_nil _
  -- nothing is in progress afterwards, so all that counts is the new client
  suffices hnew : (∃ k, k = eioReturns w.sys ∧ Shape n.toNat k client) ∧
      (streams (deviceMoves tr)).delivered
        = received (tr ++ [⟨w, .handle, { w with client, call := none }⟩]) ∧
      ∀ k, .recovery k ∈ client.log →
        ∃ m ∈ tr ++ [⟨w, .handle, { w with client, call := none }⟩],
          (receives m).isSome = true ∧ eioReturns m.pre.sys = n.toNat by
    obtain ⟨hlog, hdelivered, hrecovery⟩ := hnew
    refine ⟨fun j b hb _ => hothers j b hb, by simp, hstage, hlog, ?_, hrecovery⟩
    rw [hmoves, hdelivered]
    exact (List.append_nil _).symm
  cases hflight.taken hin hs with
  | quiet hnot hfalse hnone hretries hlog =>
    rw [hfalse, Bool.toNat_false, Nat.add_zero] at hk
    refine ⟨⟨k, hk, hshape.of_log_eq hpc hretries hlog⟩, ?_, h.recovery_concat _ hlog⟩
    rw [received_concat, receives_eq_none hprog hnot, hbytes, hnone]
    rfl
  | @data bytes hk0 hout hfalse hsome =>
    rw [hfalse, Bool.toNat_false, Nat.add_zero] at hk
    refine ⟨⟨k, hk, hshape.received hpc (hk ▸ hk0) o bytes⟩, ?_, ?_⟩
    · rw [received_concat, receives_eq_some hprog hout, hbytes, hsome]
      rfl
    · intro r hr
      rcases hmove.recovery hr with hold | ⟨hretries, -⟩
      · exact h.recovery_concat _ rfl r hold
      · -- counted retries mean that errors came before this data
        have hne : eioReturns w.sys ≠ 0 := by
          intro h0
          rw [← hk] at h0
          subst h0
          exact hretries hshape.eioRetries_eq_zero
        refine ⟨_, List.mem_append_right _ (List.mem_singleton_self _), ?_, hk0.resolve_left hne⟩
        rw [receives_eq_some hprog hout]
        rfl
  | eio hout htrue hnone =>
    rw [htrue, Bool.toNat_true] at hk
    -- the occurrence just taken up is one of the `n`
    have hlt : k < n.toNat := by
      have hle := h.stage.le
      omega
    have hinput : input = .read (.failed EIO) := Option.some.inj (hin.symm.trans hout)
    subst hinput
    refine ⟨⟨k + 1, hk, hshape.failed hpc hlt hmove⟩, ?_, ?_⟩
    · rw [received_concat, receives_eq_none hprog (ne_returned_of_failed hout), hbytes, hnone]
      rfl
    · intro r hr
      rcases hmove.recovery hr with hold | ⟨-, r', heq, hdata⟩
      · exact h.recovery_concat _ rfl r hold
      · cases heq
        cases hdata

end Steps

/-- The invariant holds in every run. -/
theorem inv_of_run {o : Options} {n : UInt32} (hn : n ≠ 0) {tr : List (Move World WorldLabel)}
    {w : World} (h : (world o n).Run tr w) : Inv n tr w := by
  refine h.induct (by rintro w rfl; exact Inv.start n) ?_
  intro tr w l w' hr ih hl
  have hi : w.sys.Inv := Kernel.machine_inv (deviceMoves_run hr)
  cases World.step_move hl with
  | write a => exact ih.invoke rfl rfl rfl (fun _ => rfl) .write rfl (by simp)
  | @setFault config hnone ht hrep =>
    refine ih.invoke rfl rfl rfl (fun hsome => absurd hnone hsome) ?_ rfl (by simp)
    exact .control rfl ht hrep
  | other hne hc hm => exact ih.other hn hi hne hc hm
  | issue hcall hop => exact ih.issue hcall hop
  | advance hsignal hreach hcall hc hm => exact ih.advance hn hi hsignal hreach hcall hc hm
  | handle hcall hc hin hs => exact ih.handle hcall hc hin hs

/-! ## The report on a run -/

/-- The occurrences consumed in a run. -/
def consumed (tr : List (Move World WorldLabel)) : Nat := (Kernel.consumers (deviceMoves tr)).length

/-- How the injected errors show up in the log of the monitor. -/
structure InjectionReport (o : Options) (n : Nat) (tr : List (Move World WorldLabel)) (w : World) :
    Prop where
  consumed_le : consumed tr ≤ n
  /-- One retry for each occurrence, up to three, with nothing between them. -/
  retries : w.Handled → ∃ pre post,
    w.client.log = pre ++ retryLines (min (consumed tr) 3) ++ post ∧
      ∀ l ∈ pre ++ post, ∀ r, l ≠ .retry r
  survives : n ≤ 3 → ∀ error, .errno .readFailed error ∉ w.client.log
  /-- The first data after the last occurrence is announced as the recovery,
  before its own lines. -/
  recovers : n ≤ 3 → ∀ before m after bytes, tr = before ++ m :: after →
    receives m = some bytes → consumed before = n →
    (∀ b m' a, before = b ++ m' :: a → (receives m').isSome = true → consumed b ≠ n) →
    m.post.client.log = m.pre.client.log ++ .recovery n ::
      (consumeInput o m.pre.client.input m.pre.client.eventCount bytes).lines
  recovers_once : w.client.log.countP LogLine.isRecovery ≤ 1
  /-- A fourth occurrence ends the monitor, and no more are consumed. -/
  gives_up : 4 ≤ consumed tr → w.Handled → consumed tr = 4 ∧ w.client.pc = .exited 1 ∧
    ∃ pre, w.client.log = pre ++ retryLines 3 ++ [.errno .readFailed EIO]
  no_recovery : 4 ≤ n → ∀ r, .recovery r ∉ w.client.log
  /-- What was written is what the monitor received, what its read in
  progress has taken, and what is queued. -/
  stream : (streams (deviceMoves tr)).accepted = received tr ++ w.undelivered ++ w.sys.dev.fifo

/-- With all results taken up, no occurrence is on its way. -/
theorem World.Handled.pending {w : World} (h : w.Handled) : w.pending = 0 := by
  unfold World.pending
  cases hc : w.inProgress with
  | none => rfl
  | some c =>
    have hnone : c.readResult = none := h c hc
    simp [Call.returnsEio_of_readResult hnone]

section Report

variable {o : Options} {n : UInt32} {tr : List (Move World WorldLabel)} {w : World}

theorem consumed_eq (h : (world o n).Run tr w) : consumed tr = eioReturns w.sys :=
  (Kernel.eioReturns_eq_consumers (deviceMoves_run h)).symm

/-- The log at a state in which all results are taken up. -/
theorem shape_of_handled (hn : n ≠ 0) (h : (world o n).Run tr w) (hh : w.Handled) :
    Shape n.toNat (consumed tr) w.client := by
  obtain ⟨k, hk, hshape⟩ := (inv_of_run hn h).log
  rw [hh.pending, Nat.add_zero, ← consumed_eq h] at hk
  exact hk ▸ hshape

/-- What the client did when it received data. -/
theorem received_step {w' : World} {l : WorldLabel} {bytes : List UInt8} (hi : Inv n tr w)
    (hl : w.step o n l = some w') (hr : receives ⟨w, l, w'⟩ = some bytes) :
    Shape n.toNat (eioReturns w.sys) w.client ∧ (∀ status, w.client.pc ≠ .exited status) ∧
      w'.client = w.client.received o bytes := by
  cases World.step_move hl with
  | @handle i c input client hcall hc hin hs =>
    obtain ⟨hprog, hflight⟩ := hi.inFlight hcall hc
    obtain ⟨k, hk, hshape⟩ := hi.log
    rw [World.pending, hprog, Option.map_some, Option.getD_some] at hk
    cases hflight.taken hin hs with
    | quiet hnot =>
      rw [receives_eq_none hprog hnot] at hr
      cases hr
    | data hk0 hout hfalse =>
      rw [receives_eq_some hprog hout] at hr
      cases hr
      rw [hfalse, Bool.toNat_false, Nat.add_zero] at hk
      exact ⟨hk ▸ hshape, (Client.step_move hs).2, rfl⟩
    | eio hout =>
      rw [receives_eq_none hprog (ne_returned_of_failed hout)] at hr
      cases hr
  | _ => cases hr

/-- The first data after the last occurrence. -/
theorem recovery_logged (hn : n ≠ 0) {m : Move World WorldLabel} {bytes : List UInt8}
    (h : (world o n).Run tr m.pre) (hl : m.pre.step o n m.label = some m.post)
    (hr : receives m = some bytes) (hk : consumed tr = n.toNat)
    (hfirst : ∀ b m' a, tr = b ++ m' :: a → (receives m').isSome = true → consumed b ≠ n.toNat) :
    m.post.client.log = m.pre.client.log ++ .recovery n.toNat ::
      (consumeInput o m.pre.client.input m.pre.client.eventCount bytes).lines := by
  have hi := inv_of_run hn h
  obtain ⟨hshape, hpc, hpost⟩ := received_step hi hl hr
  rw [← consumed_eq h, hk] at hshape
  rw [hpost, Client.received_log]
  cases hshape with
  | counting _ heq =>
    have hne : n.toNat ≠ 0 := Kernel.toNat_ne_zero hn
    simp [Client.recoveryLines, heq, hne]
  | gaveUp _ hex => exact absurd hex (hpc 1)
  | recovered _ _ _ _ _ hlog =>
    -- a recovery in the log means that data came before
    obtain ⟨m', hm', hr', hk'⟩ := hi.recovery n.toNat (by simp [hlog])
    obtain ⟨b, a, hcut⟩ := List.append_of_mem hm'
    have hrun := (h.at_move hcut).1
    exact absurd ((consumed_eq hrun).trans hk') (hfirst b m' a hcut hr')

/-- The occurrences that are injected are the retries that are logged. -/
theorem injected_eio_observed (hn : n ≠ 0) (h : (world o n).Run tr w) :
    InjectionReport o n.toNat tr w := by
  have hi := inv_of_run hn h
  obtain ⟨k, hk, hshape⟩ := hi.log
  have hle : eioReturns w.sys ≤ n.toNat := hi.stage.le
  refine {
    consumed_le := (consumed_eq h).trans_le hle
    retries := fun hh => (shape_of_handled hn h hh).retries
    survives := fun h3 => hshape.no_failure (by omega)
    recovers := ?_
    recovers_once := hshape.recovery_once
    gives_up := fun h4 hh => (shape_of_handled hn h hh).gives_up h4
    no_recovery := hshape.no_recovery
    stream := ?_ }
  · intro _ before m after bytes hcut hr hk hfirst
    obtain ⟨hrun, hl⟩ := h.at_move hcut
    exact recovery_logged hn hrun hl hr hk hfirst
  · rw [Kernel.streams_conserved (deviceMoves_run h), hi.bytes]

end Report

/-- A reading is written, one EIO is injected, and the monitor reads twice. -/
def oneErrorPhase : List WorldLabel := List.flatten [
  [.write ⟨[0x31, 0x0a], true⟩], List.replicate 6 (.other 0 { reach := 2 }),
  [.setFault ⟨Kernel.faultEio, 1, 0, 0⟩], List.replicate 5 (.other 1 { reach := 16 }),
  [.issue], List.replicate 5 (.advance { reach := 512 }), [.handle],
  [.issue], List.replicate 3 (.advance { reach := 512 }), [.handle],
  [.issue], List.replicate 6 (.advance { reach := 512 }), [.handle],
  [.issue], List.replicate 5 (.advance { reach := 512 }), [.handle]]

def oneDegree : Celsius := ⟨.ofInt 1, rfl⟩

theorem injected_eio_observed_once : ∃ tr w, (world oneOptions 1).Run tr w ∧
    InjectionReport oneOptions 1 tr w ∧ consumed tr = 1 ∧ received tr = [0x31, 0x0a] ∧
    w.client.log = [.simple .monitorStarted, .retry 1, .recovery 1, .temperature oneDegree] := by
  have hrun : ((world oneOptions 1).replay ⟨Sys.fresh, .started false, none, none⟩
      oneErrorPhase).map (fun p => (consumed p.1, received p.1, p.2.client.log))
        = some (1, [0x31, 0x0a],
          [.simple .monitorStarted, .retry 1, .recovery 1, .temperature oneDegree]) := by
    decide +kernel
  obtain ⟨tr, w, hr, heq⟩ := Lts.exists_run_of_replay (M := world oneOptions 1) rfl hrun
  simp only [Prod.mk.injEq] at heq
  exact ⟨tr, w, hr, injected_eio_observed (by decide) hr, heq⟩

end VDevLab.Monitor
