import VDevLab.Lib.Words
import VDevLab.Kernel.Solo
import VDevLab.Scenario.Accept
import VDevLab.Runner.Dispatch

/-!
# `LinuxDeviceBackend.set_fault` and its kernel side

The request number and the packed payload that the backend hands to
`ioctl(2)`, and how the kernel reads them: the command switch of
`vdevlab_ioctl` and `copy_from_user` into `struct vdevlab_fault_config`. Both
sides use the byte order of the machine.

Three copies of the fault limits meet here. They agree on everything but the
delay: the schema takes any duration up to 24 hours, the kernel takes 1 to
10000 milliseconds.
-/

namespace VDevLab.Runner

open PyStr Kernel

/-! ## The Python side -/

/-- `_ioctl_number`. -/
def ioctlNumber (direction number size : Nat) : Nat :=
  (direction <<< 30) ||| ('V'.toNat <<< 8) ||| (number <<< 0) ||| (size <<< 16)

/-- `_VDEVLAB_IOC_SET_FAULT`; 16 is `_FAULT_STRUCT.size`. -/
def iocSetFault : Nat := ioctlNumber 1 0x01 16

/-- `_VDEVLAB_IOC_CLEAR_FAULT`. -/
def iocClearFault : Nat := ioctlNumber 0 0x03 0

/-- `_VDEVLAB_IOC_RESET`. -/
def iocReset : Nat := ioctlNumber 0 0x04 0

/-- `_FAULT_TYPES`. -/
def faultTypes : List (PyStr × Nat) :=
  [(py "eio", 1), (py "delay", 2), (py "disconnect", 3), (py "partial-read", 4)]

/-- The format `I`: an unsigned 32-bit word, or `struct.error`. -/
def packWord (order : Words.Order) (n : Int) : Except DispatchFailure (List UInt8) :=
  if 0 ≤ n ∧ n < 2 ^ 32 then .ok (Words.store order 4 n.toNat) else .error .structError

/-- `_FAULT_STRUCT.pack`. -/
def packFault (order : Words.Order) (faultType repeats delayMs partialReadBytes : Int) :
    Except DispatchFailure (List UInt8) := do
  let w₀ ← packWord order faultType
  let w₁ ← packWord order repeats
  let w₂ ← packWord order delayMs
  let w₃ ← packWord order partialReadBytes
  return w₀ ++ w₁ ++ w₂ ++ w₃

/-- `set_fault`: the request number and the payload of its `ioctl`. -/
def setFault (order : Words.Order) (c : FaultConfiguration) :
    Except DispatchFailure (Nat × List UInt8) :=
  match faultTypes.lookup c.faultType with
  | none => .error (.unsupportedFaultType (some (.str c.faultType)))
  | some faultType => do
      let payload ← packFault order faultType c.repeats c.delayMs c.partialReadBytes
      return (iocSetFault, payload)

/-! ## The kernel side -/

/-- `_IOC` of `linux/ioctl.h`, with the magic of `include/vdevlab.h`. -/
def ioc (dir nr size : Nat) : Nat := dir * 2 ^ 30 + size * 2 ^ 16 + 'V'.toNat * 2 ^ 8 + nr

/-- `copy_from_user` into `struct vdevlab_fault_config`. -/
def readFaultConfig (order : Words.Order) (arg : List UInt8) : FaultConfig where
  type := UInt32.ofNat (Words.load order (arg.take 4))
  repeats := UInt32.ofNat (Words.load order ((arg.drop 4).take 4))
  delayMs := UInt32.ofNat (Words.load order ((arg.drop 8).take 4))
  partialReadBytes := UInt32.ofNat (Words.load order ((arg.drop 12).take 4))

/-- The `switch (cmd)` of `vdevlab_ioctl`; `_IOW` is direction 1, `_IOR` 2 and
`_IO` 0. -/
def ioctlCommand (order : Words.Order) (cmd : Nat) (arg : List UInt8) : IoctlCmd :=
  if cmd = ioc 1 0x01 16 then .setFault (readFaultConfig order arg)
  else if cmd = ioc 2 0x02 16 then .getFault
  else if cmd = ioc 0 0x03 0 then .clearFault
  else if cmd = ioc 0 0x04 0 then .reset
  else .other

theorem ioctlCommand_setFault (order : Words.Order) (arg : List UInt8) :
    ioctlCommand order iocSetFault arg = .setFault (readFaultConfig order arg) := by
  rw [ioctlCommand, if_pos (by decide)]

/-! ## Across the boundary -/

/-- Four words in range arrive as they were packed. -/
theorem readFaultConfig_packFault (order : Words.Order) {t r d b : Nat} (ht : t < 2 ^ 32)
    (hr : r < 2 ^ 32) (hd : d < 2 ^ 32) (hb : b < 2 ^ 32) :
    ∃ payload, packFault order t r d b = .ok payload ∧ payload.length = faultConfigSize ∧
      readFaultConfig order payload =
        ⟨UInt32.ofNat t, UInt32.ofNat r, UInt32.ofNat d, UInt32.ofNat b⟩ := by
  have hword : ∀ {n : Nat}, n < 2 ^ 32 → packWord order n = .ok (Words.store order 4 n) := by
    intro n hn
    rw [packWord, if_pos ⟨by omega, by omega⟩, Int.toNat_natCast]
  have hload : ∀ {n : Nat}, n < 2 ^ 32 → Words.load order (Words.store order 4 n) = n :=
    fun hn => Words.load_store order hn
  refine ⟨_, by simp only [packFault, hword ht, hword hr, hword hd, hword hb]; rfl, ?_, ?_⟩
  · simp [faultConfigSize]
  · simp [readFaultConfig, List.drop_append, List.drop_of_length_le,
      List.take_of_length_le, hload ht, hload hr, hload hd, hload hb]

/-- The record that an event asks for: its fault type and its parameter, the
other fields zero. -/
inductive RecordOf (event : PyDict) : FaultConfig → Prop
  | eio {n : UInt32} : event.get? (py "type") = some (.str (py "eio")) →
      event.get? (py "repeat") = some (.int n.toNat) → RecordOf event ⟨faultEio, n, 0, 0⟩
  | delay {ms : UInt32} : event.get? (py "type") = some (.str (py "delay")) →
      event.get? (py "duration_ms") = some (.int ms.toNat) → RecordOf event ⟨faultDelay, 0, ms, 0⟩
  | partialRead {b : UInt32} : event.get? (py "type") = some (.str (py "partial-read")) →
      event.get? (py "bytes") = some (.int b.toNat) → RecordOf event ⟨faultPartialRead, 0, 0, b⟩
  | disconnect : event.get? (py "type") = some (.str (py "disconnect")) →
      RecordOf event ⟨faultDisconnect, 0, 0, 0⟩

/-- The event's fault can be injected: the scheduler builds a configuration,
the backend packs it, and on every device the kernel's ioctl returns 0 and
leaves exactly the record the event asks for. -/
def Injectable (order : Words.Order) (event : PyDict) : Prop :=
  ∃ configuration request payload stored,
    faultConfiguration event = .ok configuration ∧
    setFault order configuration = .ok (request, payload) ∧
    payload.length = faultConfigSize ∧
    RecordOf event stored ∧
    ∀ d : Device, ioctlAlone (ioctlCommand order request payload) payload.length d =
      some ({ d with fault := stored }, ⟨0, none⟩)

/-- The words the kernel finds behind the pointer. -/
def rawConfig : Fault → FaultConfig
  | .eio repeats => ⟨faultEio, UInt32.ofNat repeats.1, 0, 0⟩
  | .delay duration => ⟨faultDelay, 0, UInt32.ofNat duration.1, 0⟩
  | .partialRead bytes => ⟨faultPartialRead, 0, 0, UInt32.ofNat bytes.1⟩
  | .disconnect => ⟨faultDisconnect, 0, 0, 0⟩

theorem setFault_raw (order : Words.Order) (f : Fault) :
    ∃ payload, setFault order f.configuration = .ok (iocSetFault, payload) ∧
      payload.length = faultConfigSize ∧ readFaultConfig order payload = rawConfig f := by
  have hpack : ∀ {name : PyStr} {t r d b : Nat}, faultTypes.lookup name = some t → t < 2 ^ 32 →
      r < 2 ^ 32 → d < 2 ^ 32 → b < 2 ^ 32 →
      ∃ payload, setFault order ⟨name, r, d, b⟩ = .ok (iocSetFault, payload) ∧
        payload.length = faultConfigSize ∧ readFaultConfig order payload =
          ⟨UInt32.ofNat t, UInt32.ofNat r, UInt32.ofNat d, UInt32.ofNat b⟩ := by
    intro name t r d b hname ht hr hd hb
    obtain ⟨payload, hp, hlen, hread⟩ := readFaultConfig_packFault order ht hr hd hb
    refine ⟨payload, ?_, hlen, hread⟩
    simp only [setFault, hname, hp]
    rfl
  cases f with
  | eio repeats =>
    have hmax : repeats.1 ≤ 1000000 := repeats.2.2
    exact hpack (by decide) (by decide) (by omega) (by decide) (by decide)
  | delay duration =>
    have hmax : duration.1 ≤ 86400000 := duration.2
    exact hpack (by decide) (by decide) (by decide) (by omega) (by decide)
  | partialRead bytes =>
    have hmax : bytes.1 ≤ 4096 := bytes.2.2
    exact hpack (by decide) (by decide) (by decide) (by decide) (by omega)
  | disconnect => exact hpack (by decide) (by decide) (by decide) (by decide) (by decide)

/-- Injection succeeds iff the kernel's validation takes the raw words and
returns the record of the event. -/
theorem injectable_iff_validate (order : Words.Order) (atMs : Duration) (f : Fault) :
    Injectable order (Event.dict ⟨atMs, .fault f⟩) ↔
      ∃ stored, RecordOf (Event.dict ⟨atMs, .fault f⟩) stored ∧
        validateFault (rawConfig f) = .ok stored := by
  obtain ⟨payload, hset, hlen, hread⟩ := setFault_raw order f
  have hcmd : ioctlCommand order iocSetFault payload = .setFault (rawConfig f) := by
    rw [ioctlCommand_setFault, hread]
  constructor
  · intro h
    obtain ⟨c, request, p, stored, hc, hs, -, hrec, hrun⟩ := h
    cases hc.symm.trans (faultConfiguration_dict atMs f)
    cases hs.symm.trans hset
    refine ⟨stored, hrec, ?_⟩
    have hfresh := hrun .fresh
    rw [hcmd] at hfresh
    cases hv : validateFault (rawConfig f) with
    | error e =>
      rw [ioctlAlone_setFault_refused hlen.ge hv, validateFault_error hv] at hfresh
      simp [EINVAL] at hfresh
    | ok stored' =>
      rw [ioctlAlone_setFault hlen.ge hv] at hfresh
      simp only [Option.some.injEq, Prod.mk.injEq, Device.mk.injEq, true_and, and_true] at hfresh
      rw [hfresh]
  · intro h
    obtain ⟨stored, hrec, hv⟩ := h
    refine ⟨_, _, payload, stored, faultConfiguration_dict atMs f, hset, hlen, hrec, fun d => ?_⟩
    rw [hcmd]
    exact ioctlAlone_setFault hlen.ge hv d

/-! ## Which faults can be injected -/

section Word

variable {n k : Nat} (h : n ≤ k) (hk : k < 2 ^ 32)

include h hk

theorem toNat_word : (UInt32.ofNat n).toNat = n := by
  rw [UInt32.toNat_ofNat']
  omega

theorem word_le : UInt32.ofNat n ≤ UInt32.ofNat k := by
  rw [UInt32.le_iff_toNat_le, toNat_word h hk, toNat_word le_rfl hk]
  exact h

theorem word_ne_zero (hpos : 1 ≤ n) : UInt32.ofNat n ≠ 0 := by
  intro h0
  have := congrArg UInt32.toNat h0
  rw [toNat_word h hk] at this
  simp at this
  omega

end Word

/-- A fault whose raw words are canonical is injected as it is. -/
theorem injectable_of_canonical (order : Words.Order) (atMs : Duration) {f : Fault}
    (hc : Canonical (rawConfig f)) (hrec : RecordOf (Event.dict ⟨atMs, .fault f⟩) (rawConfig f)) :
    Injectable order (Event.dict ⟨atMs, .fault f⟩) :=
  (injectable_iff_validate order atMs f).mpr ⟨_, hrec, hc.validateFault⟩

theorem injectable_delay_iff (order : Words.Order) (atMs duration : Duration) :
    Injectable order (Event.dict ⟨atMs, .fault (.delay duration)⟩) ↔
      1 ≤ duration.1 ∧ duration.1 ≤ 10000 := by
  have hword : (UInt32.ofNat duration.1).toNat = duration.1 :=
    toNat_word duration.2 (by decide)
  constructor
  · intro h
    obtain ⟨stored, -, hv⟩ := (injectable_iff_validate order atMs _).mp h
    obtain ⟨hpos, hmax⟩ := validateFault_delayMs hv rfl
    simp only [rawConfig] at hpos hmax
    rw [UInt32.le_iff_toNat_le, hword] at hmax
    refine ⟨Nat.pos_of_ne_zero fun h0 => hpos ?_, hmax⟩
    rw [h0]
    rfl
  · intro h
    obtain ⟨hpos, hmax⟩ := h
    refine injectable_of_canonical order atMs ?_ ?_
    · exact .delay (word_ne_zero duration.2 (by decide) hpos) (word_le hmax (by decide))
    · refine .delay rfl ?_
      rw [hword]
      rfl

/-- Faults of the other kinds are always in the kernel's range. -/
theorem injectable_of_not_delay (order : Words.Order) (atMs : Duration) {f : Fault}
    (h : ∀ duration, f ≠ .delay duration) : Injectable order (Event.dict ⟨atMs, .fault f⟩) := by
  cases f with
  | eio repeats =>
    refine injectable_of_canonical order atMs ?_ ?_
    · exact .eio (word_ne_zero repeats.2.2 (by decide) repeats.2.1)
        (word_le repeats.2.2 (by decide))
    · refine .eio rfl ?_
      rw [toNat_word repeats.2.2 (by decide)]
      rfl
  | delay duration => exact absurd rfl (h duration)
  | partialRead bytes =>
    refine injectable_of_canonical order atMs ?_ ?_
    · exact .partialRead (word_ne_zero bytes.2.2 (by decide) bytes.2.1)
        (word_le bytes.2.2 (by decide))
    · refine .partialRead rfl ?_
      rw [toNat_word bytes.2.2 (by decide)]
      rfl
  | disconnect => exact injectable_of_canonical order atMs .disconnect (.disconnect rfl)

/-- The fault events among the normalized events. -/
theorem fault_of_action {e : Event} (h : e.dict.get? (py "action") = some (.str (py "fault"))) :
    ∃ f, e = ⟨e.atMs, .fault f⟩ := by
  obtain ⟨atMs, action⟩ := e
  cases action with
  | fault f => exact ⟨f, rfl⟩
  | write data => exact absurd (PyValue.str.inj (Option.some.inj h)) (by decide)
  | clear => exact absurd (PyValue.str.inj (Option.some.inj h)) (by decide)
  | reset => exact absurd (PyValue.str.inj (Option.some.inj h)) (by decide)

/-- **Which validated fault events can be injected**: all but the delays
outside the kernel's 1 to 10000 milliseconds. -/
theorem fault_injectable_iff {safeLoad : PyStr → Except Scenario.LoadError PyValue}
    {lim : IntLimit} {text source : PyStr} {sd : ScenarioDefinition}
    (h : Scenario.parseScenario safeLoad lim text source = .ok sd) (order : Words.Order)
    {event : PyDict} (hmem : event ∈ sd.events)
    (hfault : event.get? (py "action") = some (.str (py "fault"))) :
    Injectable order event ↔
      (event.get? (py "type") = some (.str (py "delay")) →
        ∃ ms : Int, event.get? (py "duration_ms") = some (.int ms) ∧ 1 ≤ ms ∧ ms ≤ 10000) := by
  obtain ⟨sc, rfl⟩ := Scenario.parseScenario_definition h
  obtain ⟨e, -, rfl⟩ := List.mem_map.mp hmem
  obtain ⟨f, he⟩ := fault_of_action hfault
  rw [he]
  cases f with
  | delay duration =>
    rw [injectable_delay_iff]
    constructor
    · rintro ⟨hpos, hmax⟩ -
      exact ⟨duration.1, rfl, by omega, by omega⟩
    · intro hrange
      obtain ⟨ms, hms, hpos, hmax⟩ := hrange rfl
      cases (PyValue.int.inj (Option.some.inj hms) : (duration.1 : Int) = ms)
      omega
  | eio repeats =>
    refine ⟨fun _ ht => absurd (PyValue.str.inj (Option.some.inj ht)) (by decide), fun _ => ?_⟩
    exact injectable_of_not_delay order _ (by simp)
  | partialRead bytes =>
    refine ⟨fun _ ht => absurd (PyValue.str.inj (Option.some.inj ht)) (by decide), fun _ => ?_⟩
    exact injectable_of_not_delay order _ (by simp)
  | disconnect =>
    refine ⟨fun _ ht => absurd (PyValue.str.inj (Option.some.inj ht)) (by decide), fun _ => ?_⟩
    exact injectable_of_not_delay order _ (by simp)

/-- A document with a single event, at the start, injecting a fault with the
given fields. -/
def faultDocument (fields : List (String × PyValue)) : PyValue :=
  .dict (PyDict.ofList [("schema_version", .int 1),
    ("device", .dict (PyDict.ofList [("path", .str (py "/dev/vdevlab0"))])),
    ("application", .dict (PyDict.ofList [("command", .list [.str (py "./vtemp-monitor")])])),
    ("scenario", .dict (PyDict.ofList [("name", .str (py "fault")), ("timeout", .str (py "60s")),
      ("events", .list [.dict (PyDict.ofList
        ([("at", .str (py "0ms")), ("action", .str (py "fault"))] ++ fields))])])),
    ("assertions", .list [.dict (PyDict.ofList
      [("event", .str (py "MONITOR_STARTED")), ("count", .int 1)])])])

/-- Its normal form. -/
def faultDefinition (f : Fault) : ScenarioDefinition where
  source := py "<memory>"
  schemaVersion := 1
  devicePath := py "/dev/vdevlab0"
  command := [py "./vtemp-monitor"]
  startupTimeoutMs := 2000
  name := py "fault"
  timeoutMs := 60000
  events := [Event.dict ⟨.zero, .fault f⟩]
  assertions := [PyDict.ofList [("type", .str (py "event_count")),
    ("event", .str (py "MONITOR_STARTED")), ("count", .int 1)]]

/-- Three EIO occurrences are injected. -/
theorem fault_injectable_iff_eio :
    Injectable .little (Event.dict ⟨.zero, .fault (.eio ⟨3, by decide⟩)⟩) := by
  have haccept : Scenario.parseScenario
      (fun _ => .ok (faultDocument [("type", .str (py "eio")), ("repeat", .int 3)]))
      defaultIntLimit [] (py "<memory>") = .ok (faultDefinition (.eio ⟨3, by decide⟩)) := rfl
  refine (fault_injectable_iff haccept .little List.mem_cons_self rfl).mpr fun ht => ?_
  exact absurd (PyValue.str.inj (Option.some.inj ht)) (by decide)

/-- A delay of 30 seconds validates and cannot be injected. -/
theorem fault_injectable_fails_on_long_delay : ∃ sd event,
    Scenario.parseScenario
      (fun _ => .ok (faultDocument [("type", .str (py "delay")), ("duration", .str (py "30s"))]))
      defaultIntLimit [] (py "<memory>") = .ok sd ∧
    event ∈ sd.events ∧ event.get? (py "action") = some (.str (py "fault")) ∧
    ¬ Injectable .little event := by
  refine ⟨faultDefinition (.delay ⟨30000, by decide⟩), _, rfl, List.mem_cons_self, rfl, ?_⟩
  rw [injectable_delay_iff]
  decide

end VDevLab.Runner
