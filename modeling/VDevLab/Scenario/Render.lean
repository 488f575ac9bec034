import VDevLab.Scenario.Accept

/-!
# Every scenario has a document

A scenario is written as a document with all fields and every duration in
milliseconds, and the parser reads it back. Nothing of it is lost in the
normal form: scenarios with the same normal form are the same. So what the
parser returns and the scenarios of the schema are in one-to-one
correspondence.
-/

namespace VDevLab

open PyStr

/-! ## The document of a scenario -/

def Duration.render (d : Duration) : PyValue := .str (decimal d.1 ++ py "ms")

/-- A field that is written only when it is there. -/
def optionalField {α : Type} (key : String) (f : α → PyValue) : Option α → List (String × PyValue)
  | none => []
  | some a => [(key, f a)]

def Fault.fields : Fault → List (String × PyValue)
  | .eio repeats => [("type", .str (py "eio")), ("repeat", .int repeats.1)]
  | .delay duration => [("type", .str (py "delay")), ("duration", duration.render)]
  | .partialRead bytes => [("type", .str (py "partial-read")), ("bytes", .int bytes.1)]
  | .disconnect => [("type", .str (py "disconnect"))]

def Action.fields : Action → List (String × PyValue)
  | .write data => [("action", .str (py "write")), ("data", .str data.1)]
  | .fault f => ("action", .str (py "fault")) :: f.fields
  | .clear => [("action", .str (py "clear"))]
  | .reset => [("action", .str (py "reset"))]

def Event.render (e : Event) : PyValue :=
  .dict (PyDict.ofList (("at", e.atMs.render) :: e.action.fields))

def Assertion.fields : Assertion → List (String × PyValue)
  | .eventCount event count within maxLatency _ =>
      [("type", .str (py "event_count")), ("event", .str event.1), ("count", .int count.1)]
        ++ optionalField "within" Duration.render within
        ++ optionalField "max_latency" Duration.render maxLatency
  | .stdout contains notContains _ =>
      ("type", .str (py "stdout"))
        :: (optionalField "contains" (fun t : Text => .str t.1) contains
          ++ optionalField "not_contains" (fun t : Text => .str t.1) notContains)
  | .disconnect expected => [("type", .str (py "disconnect")), ("expected", .bool expected)]
  | .kernelWarnings count => [("type", .str (py "kernel_warnings")), ("count", .int count.1)]

namespace Scenario

def render (sc : Scenario) : PyValue :=
  .dict (PyDict.ofList [
    ("schema_version", .int 1),
    ("device", .dict (PyDict.ofList [("path", .str sc.devicePath.1)])),
    ("application", .dict (PyDict.ofList [
      ("command", .list (sc.command.map fun t => .str t.1)),
      ("startup_timeout", sc.startupTimeout.render)])),
    ("scenario", .dict (PyDict.ofList [
      ("name", .str sc.name.1),
      ("timeout", sc.timeout.render),
      ("events", .list (sc.events.map (·.render)))])),
    ("assertions", .list (sc.assertions.map fun a => .dict (PyDict.ofList a.fields)))])

/-! ## The document describes the scenario -/

theorem isDuration_render (d : Duration) : IsDuration d.render d.1 :=
  ⟨d.2, d.1, .inl ⟨rfl, rfl⟩⟩

theorem get?_ofList {l : List (String × PyValue)} {k : String} (h : k ∈ l.map Prod.fst) :
    ∃ v, (PyDict.ofList l).get? (py k) = some v := by
  apply Option.isSome_iff_exists.mp
  rw [PyDict.get?_isSome, PyDict.mem_strKeys]
  obtain ⟨⟨k', v⟩, hmem, rfl⟩ := List.mem_map.mp h
  exact ⟨v, List.mem_map.mpr ⟨(k', v), hmem, rfl⟩⟩

/-- A dict display with the fields that are asked for. -/
theorem fields_ofList {l : List (String × PyValue)} {required optional : List String}
    (hall : ∀ k ∈ l.map Prod.fst, k ∈ required ++ optional)
    (hrequired : ∀ k ∈ required, k ∈ l.map Prod.fst) :
    Fields (PyDict.ofList l) required optional := by
  refine ⟨?_, fun k hk => get?_ofList (hrequired k hk)⟩
  intro kv hkv
  obtain ⟨p, hmem, rfl⟩ := List.mem_map.mp hkv
  exact ⟨p.1, hall p.1 (List.mem_map.mpr ⟨p, hmem, rfl⟩), rfl⟩

theorem fields_same {l : List (String × PyValue)} {required : List String}
    (h : l.map Prod.fst = required) : Fields (PyDict.ofList l) required [] := by
  subst h
  exact fields_ofList (by simp) (fun _ hk => hk)

theorem describesFault_render (at' : PyValue) (f : Fault) :
    DescribesFault (PyDict.ofList (("at", at') :: (Action.fault f).fields)) f := by
  cases f with
  | eio repeats => exact .eio (fields_same rfl) rfl rfl
  | delay duration => exact .delay (fields_same rfl) rfl rfl (isDuration_render duration)
  | partialRead bytes => exact .partialRead (fields_same rfl) rfl rfl
  | disconnect => exact .disconnect (fields_same rfl) rfl

theorem describesAction_render (at' : PyValue) (a : Action) :
    DescribesAction (PyDict.ofList (("at", at') :: a.fields)) a := by
  cases a with
  | write data => exact .write (fields_same rfl) rfl rfl
  | fault f => exact .fault rfl (describesFault_render at' f)
  | clear => exact .clear (fields_same rfl) rfl
  | reset => exact .reset (fields_same rfl) rfl

theorem describesEvent_render (e : Event) : DescribesEvent e.render e :=
  ⟨_, rfl, describesAction_render _ e.action, _, rfl, isDuration_render e.atMs⟩

/-- An optional field among others, which have other names. -/
theorem optionally_render {α : Type} {key : String} {f : α → PyValue} {P : PyValue → α → Prop}
    (hP : ∀ a, P (f a) a) {o : Option α} {d : PyDict}
    (hget : d.get? (py key) = o.map f) : Optionally d key P o := by
  cases o with
  | none => exact hget
  | some a => exact ⟨f a, hget, hP a⟩

theorem describesAssertion_render (a : Assertion) :
    DescribesAssertion (.dict (PyDict.ofList a.fields)) a := by
  cases a with
  | eventCount event count within maxLatency recovery =>
    refine .eventCount ?_ (.inr rfl) rfl rfl ?_ ?_
    · apply fields_ofList
      · cases within <;> cases maxLatency <;> simp [Assertion.fields, optionalField]
      · simp [Assertion.fields]
    · apply optionally_render (fun ms => isDuration_render ms)
      cases within <;> cases maxLatency <;> rfl
    · apply optionally_render (fun ms => isDuration_render ms)
      cases within <;> cases maxLatency <;> rfl
  | stdout contains notContains given =>
    refine .stdout ?_ rfl ?_ ?_
    · apply fields_ofList
      · cases contains <;> cases notContains <;> simp [Assertion.fields, optionalField]
      · simp [Assertion.fields]
    · apply optionally_render (f := fun t : Text => .str t.1) (fun _ => rfl)
      cases contains <;> cases notContains <;> rfl
    · apply optionally_render (f := fun t : Text => .str t.1) (fun _ => rfl)
      cases contains <;> cases notContains <;> rfl
  | disconnect expected => exact .disconnect (fields_same rfl) rfl rfl
  | kernelWarnings count => exact .kernelWarnings (fields_same rfl) rfl rfl

theorem forall₂_map {α β : Type} {P : β → α → Prop} {f : α → β} (h : ∀ a, P (f a) a) (l : List α) :
    List.Forall₂ P (l.map f) l := by
  induction l with
  | nil => exact .nil
  | cons a l ih => exact .cons (h a) ih

theorem render_describes (sc : Scenario) : Describes sc.render sc := by
  refine ⟨_, rfl, fields_same rfl, rfl, ⟨_, rfl, ?_⟩, ⟨_, rfl, ?_⟩, ⟨_, rfl, ?_⟩, _, rfl, ?_⟩
  · exact ⟨_, rfl, fields_same rfl, rfl⟩
  · exact ⟨_, rfl, fields_ofList (by simp) (by simp), rfl,
      .inr ⟨_, rfl, isDuration_render sc.startupTimeout⟩⟩
  · exact ⟨_, rfl, fields_same rfl, rfl, ⟨_, rfl, isDuration_render sc.timeout⟩,
      _, rfl, forall₂_map describesEvent_render sc.events⟩
  · exact forall₂_map describesAssertion_render sc.assertions

end Scenario

/-! ## The normal form loses nothing -/

theorem Fault.entries_injective {f f' : Fault} (h : f.entries = f'.entries) : f = f' := by
  cases f <;> cases f' <;> simp +decide [Fault.entries, PyDict.ofList] at h
  case eio.eio => exact congrArg Fault.eio (Subtype.ext h)
  case delay.delay => exact congrArg Fault.delay (Subtype.ext h)
  case partialRead.partialRead => exact congrArg Fault.partialRead (Subtype.ext h)
  case disconnect.disconnect => rfl

theorem Action.entries_injective {a a' : Action} (h : a.entries = a'.entries) : a = a' := by
  cases a <;> cases a' <;> simp +decide [Action.entries, PyDict.ofList] at h
  case write.write => exact congrArg Action.write (Subtype.ext h)
  case fault.fault => exact congrArg Action.fault (Fault.entries_injective h)
  case clear.clear => rfl
  case reset.reset => rfl

theorem Event.dict_injective : Function.Injective Event.dict := by
  rintro ⟨at₁, action₁⟩ ⟨at₂, action₂⟩ h
  obtain ⟨haction, hat⟩ := List.append_inj' h rfl
  simp only [PyDict.ofList, List.map_cons, List.map_nil, List.cons.injEq, Prod.mk.injEq,
    PyValue.int.injEq, Nat.cast_inj, and_true, true_and] at hat
  cases Action.entries_injective haction
  cases Subtype.ext hat
  rfl

/-- Two optional entries under different keys. -/
theorem optionalEntries_injective {α : Type} {k l : String} (hkl : py k ≠ py l) {f : α → PyValue}
    (hf : Function.Injective f) {a a' b b' : Option α}
    (h : optionalEntry k f a ++ optionalEntry l f b =
      optionalEntry k f a' ++ optionalEntry l f b') : a = a' ∧ b = b' := by
  revert h
  cases a <;> cases a' <;> cases b <;> cases b' <;>
    simp [optionalEntry, PyDict.ofList, hkl, hkl.symm, hf.eq_iff]

theorem int_injective : Function.Injective fun ms : Duration => PyValue.int ms.1 := by
  intro ms ms' h
  exact Subtype.ext (Nat.cast_inj.mp (PyValue.int.inj h))

theorem str_injective : Function.Injective fun t : Text => PyValue.str t.1 := by
  intro t t' h
  exact Subtype.ext (PyValue.str.inj h)

theorem Assertion.dict_injective : Function.Injective Assertion.dict := by
  intro a a' h
  cases a <;> cases a' <;> simp +decide [Assertion.dict, PyDict.ofList] at h
  case eventCount.eventCount event count within latency _ event' count' within' latency' _ =>
    obtain ⟨hevent, hcount, hrest⟩ := h
    obtain ⟨rfl, rfl⟩ := optionalEntries_injective (by decide) int_injective hrest
    cases Subtype.ext hevent
    cases Subtype.ext hcount
    rfl
  case stdout.stdout contains without _ contains' without' _ =>
    obtain ⟨rfl, rfl⟩ := optionalEntries_injective (by decide) str_injective h
    rfl
  case disconnect.disconnect => rw [h]
  case kernelWarnings.kernelWarnings => rw [Subtype.ext h]

namespace Scenario

theorem definition_injective {sc sc' : Scenario} {source : PyStr}
    (h : sc.definition source = sc'.definition source) : sc = sc' := by
  obtain ⟨device, command, _, startup, name, timeout, events, _, _, _, assertions, _, _⟩ := sc
  obtain ⟨device', command', _, startup', name', timeout', events', _, _, _, assertions', _, _⟩ := sc'
  simp only [definition, ScenarioDefinition.mk.injEq, true_and] at h
  obtain ⟨hdevice, hcommand, hstartup, hname, htimeout, hevents, hassertions⟩ := h
  cases Subtype.ext hdevice
  cases List.map_injective_iff.mpr Subtype.val_injective hcommand
  cases Subtype.ext hstartup
  cases Subtype.ext hname
  cases Subtype.ext htimeout
  cases List.map_injective_iff.mpr Event.dict_injective hevents
  cases List.map_injective_iff.mpr Assertion.dict_injective hassertions
  rfl

/-- Reading the document of a scenario gives its normal form, and every
document that is accepted reads as the document of exactly one scenario. -/
theorem parse_render (lim : IntLimit) (source : PyStr) :
    (∀ sc : Scenario, parseDocument lim sc.render source = .ok (sc.definition source)) ∧
      ∀ doc sd, parseDocument lim doc source = .ok sd →
        ∃! sc : Scenario, parseDocument lim sc.render source = .ok sd := by
  have hrender : ∀ sc : Scenario, parseDocument lim sc.render source =
      .ok (sc.definition source) := by
    intro sc
    exact parseDocument_eq_ok.mpr ⟨sc, render_describes sc, rfl⟩
  refine ⟨hrender, ?_⟩
  intro doc sd h
  obtain ⟨sc, -, rfl⟩ := parseDocument_eq_ok.mp h
  refine ⟨sc, hrender sc, ?_⟩
  intro sc' h'
  rw [hrender sc'] at h'
  exact definition_injective (Except.ok.inj h')

end Scenario

end VDevLab
