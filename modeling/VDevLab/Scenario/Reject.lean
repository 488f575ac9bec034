import VDevLab.Scenario.Accept

/-!
# What leaves the parser instead of a definition

Nearly every document that is not of the schema ends in a `ScenarioError`
whose text is the program's own. Two things in a document do not: a duration
whose numeral is too long for `int`, and an unexpected field, whose name goes
into the message. Neither matters unless the parser gets there, and it reads
in a fixed order, so what stands before has to be of the schema.
-/

namespace VDevLab

open Check PyStr

/-- A kind of characters that no string of the source has. -/
structure Foreign where
  has : CodePoint → Bool
  not_char : ∀ c : Char, has (ch c) = false

namespace Foreign

variable (kind : Foreign)

/-- The kind that no character is of. -/
def none : Foreign := ⟨fun _ => false, fun _ => rfl⟩

/-- A string without such characters. -/
def Clean (s : PyStr) : Prop := s.any kind.has = false

theorem clean_none (s : PyStr) : none.Clean s := by
  rw [Clean, List.any_eq_false]
  exact fun c _ => Bool.false_ne_true

variable {kind}

@[simp] theorem clean_append {s t : PyStr} : kind.Clean (s ++ t) ↔ kind.Clean s ∧ kind.Clean t := by
  simp only [Clean, List.any_append, Bool.or_eq_false_iff]

@[simp] theorem clean_py (s : String) : kind.Clean (py s) := by
  rw [Clean, List.any_eq_false]
  intro c hc
  obtain ⟨d, -, rfl⟩ := List.mem_map.mp hc
  rw [kind.not_char d]
  exact Bool.false_ne_true

/-- The path of a field. -/
theorem Clean.field {path : PyStr} (h : kind.Clean path) (s : String) : kind.Clean (path ++ py s) :=
  clean_append.mpr ⟨h, clean_py s⟩

@[simp] theorem clean_decimal (n : Nat) : kind.Clean (decimal n) := by
  rw [Clean, List.any_eq_false]
  intro c hc
  have hdigit := List.all_eq_true.mp (isNumeral_decimal n).2.1 c hc
  simp only [isDigit, Bool.and_eq_true, decide_eq_true_eq] at hdigit
  have hvalid : c.val.isValidChar := .inl (by omega)
  have hchar : c = ch (Char.ofNatAux c.val hvalid) := rfl
  rw [hchar, kind.not_char]
  exact Bool.false_ne_true

/-- A list of names, joined. -/
theorem clean_join {sep : PyStr} (hsep : kind.Clean sep) {l : List PyStr} :
    kind.Clean (join sep l) ↔ ∀ s ∈ l, kind.Clean s := by
  induction l with
  | nil => simp [join, Clean]
  | cons s l ih =>
    cases l with
    | nil => simp [join]
    | cons t l =>
      have hjoin : join sep (s :: t :: l) = s ++ (sep ++ join sep (t :: l)) := by
        simp [join]
      rw [hjoin, clean_append, clean_append, ih, List.forall_mem_cons]
      simp [hsep]

end Foreign

/-- The exception is no `ScenarioError`, or one with a character of the kind
in its path or message. -/
def ParseFailure.Improper (kind : Foreign) : ParseFailure → Prop
  | .scenarioError path message => ¬ (kind.Clean path ∧ kind.Clean message)
  | _ => True

namespace Scenario

/-! ## What gets in the way -/

/-- A duration whose numeral `int` refuses. -/
def Overlong (lim : IntLimit) (v : PyValue) : Prop :=
  ∃ n, (v = .str (decimal n ++ py "ms") ∨ v = .str (decimal n ++ py "s")) ∧
    lim.digits ≠ 0 ∧ lim.digits < (decimal n).length

/-- A mapping with all required fields, and with one besides them and the
optional ones whose name has a character of the kind. -/
structure Stray (kind : Foreign) (d : PyDict) (required optional : List String) : Prop where
  strKeys : StrKeys d
  present : ∀ k ∈ required, ∃ v, d.get? (py k) = some v
  unexpected : ∃ name ∈ d.strKeys, name ∉ names (required ++ optional) ∧ ¬ kind.Clean name

/-- Unexpected fields are in the way of characters only. -/
theorem not_stray_none {d : PyDict} {required optional : List String} :
    ¬ Stray .none d required optional := by
  intro h
  obtain ⟨-, -, name, -, -, hname⟩ := h
  exact hname (Foreign.clean_none name)

/-- The fields of the fault forms. -/
def faultFields : List (String × List String) :=
  [("eio", ["at", "action", "type", "repeat"]), ("delay", ["at", "action", "type", "duration"]),
    ("partial-read", ["at", "action", "type", "bytes"]), ("disconnect", ["at", "action", "type"])]

/-- The fields of the actions that have no forms. -/
def actionFields : List (String × List String) :=
  [("write", ["at", "action", "data"]), ("clear", ["at", "action"]), ("reset", ["at", "action"])]

/-- The required and the optional fields of the assertions with a type. -/
def assertionFields : List (String × List String × List String) :=
  [("stdout", ["type"], ["contains", "not_contains"]), ("disconnect", ["type", "expected"], []),
    ("kernel_warnings", ["type", "count"], [])]

section Snags

variable (kind : Foreign) (lim : IntLimit)

def SnagDevice (v : PyValue) : Prop :=
  ∃ d : PyDict, v = .dict d ∧ Stray kind d ["path"] []

inductive SnagApplication : PyValue → Prop
  | stray {d : PyDict} : Stray kind d ["command"] ["startup_timeout"] → SnagApplication (.dict d)
  | startupTimeout {d : PyDict} {command : List Text} {w} :
      Fields d ["command"] ["startup_timeout"] → command ≠ [] →
      d.get? (py "command") = some (.list (command.map fun t => .str t.1)) →
      d.get? (py "startup_timeout") = some w → Overlong lim w → SnagApplication (.dict d)

inductive SnagFault (d : PyDict) : Prop
  | stray {form fields} : (form, fields) ∈ faultFields →
      d.get? (py "type") = some (.str (py form)) → Stray kind d fields [] → SnagFault d
  | duration {w} : Fields d ["at", "action", "type", "duration"] [] →
      d.get? (py "type") = some (.str (py "delay")) →
      d.get? (py "duration") = some w → Overlong lim w → SnagFault d

inductive SnagAction (d : PyDict) : Prop
  | stray {form fields} : (form, fields) ∈ actionFields →
      d.get? (py "action") = some (.str (py form)) → Stray kind d fields [] → SnagAction d
  | fault : d.get? (py "action") = some (.str (py "fault")) → SnagFault kind lim d → SnagAction d

inductive SnagEvent (timeoutMs : Nat) : PyValue → Prop
  | time {d : PyDict} {w u} : StrKeys d → d.get? (py "action") = some u →
      d.get? (py "at") = some w → Overlong lim w → SnagEvent timeoutMs (.dict d)
  | action {d : PyDict} {w ms} : d.get? (py "at") = some w → IsDuration w ms → ms ≤ timeoutMs →
      SnagAction kind lim d → SnagEvent timeoutMs (.dict d)

inductive SnagBody : PyValue → Prop
  | stray {d : PyDict} : Stray kind d ["name", "timeout", "events"] [] → SnagBody (.dict d)
  | timeout {d : PyDict} {name : Text} {w} : Fields d ["name", "timeout", "events"] [] →
      d.get? (py "name") = some (.str name.1) →
      d.get? (py "timeout") = some w → Overlong lim w → SnagBody (.dict d)
  | event {d : PyDict} {name : Text} {w ms before v after} :
      Fields d ["name", "timeout", "events"] [] →
      d.get? (py "name") = some (.str name.1) →
      d.get? (py "timeout") = some w → IsDuration w ms →
      d.get? (py "events") = some (.list (before ++ v :: after)) →
      (∀ u ∈ before, ∃ e, DescribesEvent u e ∧ e.atMs.1 ≤ ms) →
      SnagEvent kind lim ms v → SnagBody (.dict d)

inductive SnagAssertion (timeout : Duration) : PyValue → Prop
  | stray {d : PyDict} {form required optional} : (form, required, optional) ∈ assertionFields →
      d.get? (py "type") = some (.str (py form)) → Stray kind d required optional →
      SnagAssertion timeout (.dict d)
  | strayEvent {d : PyDict} :
      (d.get? (py "type") = none ∨ d.get? (py "type") = some (.str (py "event_count"))) →
      Stray kind d ["event", "count"] ["type", "within", "max_latency"] →
      SnagAssertion timeout (.dict d)
  | within {d : PyDict} {event : PyStr} {count : Range 1 1000000} {w} :
      (d.get? (py "type") = none ∨ d.get? (py "type") = some (.str (py "event_count"))) →
      Fields d ["event", "count"] ["type", "within", "max_latency"] →
      d.get? (py "event") = some (.str event) → event ∈ logEvents →
      d.get? (py "count") = some (.int count.1) →
      d.get? (py "within") = some w → Overlong lim w → SnagAssertion timeout (.dict d)
  | maxLatency {d : PyDict} {count : Range 1 1000000} {within : Option Duration} {w} :
      (d.get? (py "type") = none ∨ d.get? (py "type") = some (.str (py "event_count"))) →
      Fields d ["event", "count"] ["type", "within", "max_latency"] →
      d.get? (py "event") = some (.str (py "RECOVERY_SUCCESS")) →
      d.get? (py "count") = some (.int count.1) →
      Optionally d "within" (fun v ms => IsDuration v ms.1) within →
      (∀ ms ∈ within, ms.1 ≤ timeout.1) →
      d.get? (py "max_latency") = some w → Overlong lim w → SnagAssertion timeout (.dict d)

inductive SnagAssertions (timeout : Duration) : PyValue → Prop
  | item {before v after} :
      (∀ u ∈ before, ∃ a, DescribesAssertion u a ∧ a.Within timeout) →
      SnagAssertion kind lim timeout v → SnagAssertions timeout (.list (before ++ v :: after))

/-- The root's own fields are of schema version 1. -/
def Versioned (d : PyDict) : Prop :=
  Fields d ["schema_version", "device", "application", "scenario", "assertions"] [] ∧
    d.get? (py "schema_version") = some (.int 1)

/-- The document has an over-long numeral or a field of the kind where the
parser gets to it. -/
inductive Snag : PyValue → Prop
  | stray {d : PyDict} :
      Stray kind d ["schema_version", "device", "application", "scenario", "assertions"] [] →
      Snag (.dict d)
  | device {d : PyDict} {v} : Versioned d → d.get? (py "device") = some v →
      SnagDevice kind v → Snag (.dict d)
  | application {d : PyDict} {v w path} : Versioned d →
      d.get? (py "device") = some v → DescribesDevice v path → py "/dev/" <+: path →
      d.get? (py "application") = some w → SnagApplication kind lim w → Snag (.dict d)
  | scenario {d : PyDict} {v w u path command startup} : Versioned d →
      d.get? (py "device") = some v → DescribesDevice v path → py "/dev/" <+: path →
      d.get? (py "application") = some w → DescribesApplication w command startup → command ≠ [] →
      d.get? (py "scenario") = some u → SnagBody kind lim u → Snag (.dict d)
  | assertions {d : PyDict} {v w u t path command startup name timeout events} : Versioned d →
      d.get? (py "device") = some v → DescribesDevice v path → py "/dev/" <+: path →
      d.get? (py "application") = some w → DescribesApplication w command startup → command ≠ [] →
      d.get? (py "scenario") = some u → DescribesBody u name timeout events →
      EventsOk timeout events →
      d.get? (py "assertions") = some t → SnagAssertions kind lim timeout t → Snag (.dict d)

end Snags

/-! ## Single checks -/

section Checks

variable {kind : Foreign} {lim : IntLimit} {path : PyStr}

/-- A message of the program is no trouble. -/
theorem not_improper {message : PyStr} (hpath : kind.Clean path) (hmessage : kind.Clean message) :
    ¬ (ParseFailure.scenarioError path message).Improper kind :=
  fun h => h ⟨hpath, hmessage⟩

theorem raises_mapping (hpath : kind.Clean path) {v : PyValue} :
    ¬ Raises (ParseFailure.Improper kind) (mapping v path) := by
  unfold mapping
  split
  · rw [raises_bind, raises_refuse]
    intro h
    rcases h with ⟨-, h⟩ | ⟨-, -, h⟩
    · exact not_improper hpath (Foreign.clean_py _) h
    · exact raises_pure h
  · rw [raises_error]
    exact not_improper hpath (Foreign.clean_py _)

theorem mem_sorted {l : List PyStr} {s : PyStr} : s ∈ sorted l ↔ s ∈ l :=
  (List.perm_insertionSort (le · ·) l).mem_iff

theorem raises_required (hpath : kind.Clean path) {d : PyDict} {l : List String} :
    ¬ Raises (ParseFailure.Improper kind) (required d (names l) path) := by
  rw [required, raises_refuse]
  intro h
  obtain ⟨-, h⟩ := h
  refine not_improper hpath ?_ h
  rw [Foreign.clean_append, Foreign.clean_join (Foreign.clean_py _)]
  refine ⟨Foreign.clean_py _, fun s hs => ?_⟩
  obtain ⟨k, -, rfl⟩ := mem_names.mp (List.mem_of_mem_filter (mem_sorted.mp hs))
  exact Foreign.clean_py k

theorem raises_allowed (hpath : kind.Clean path) {d : PyDict} {fields : List PyStr} :
    Raises (ParseFailure.Improper kind) (allowed d fields path) ↔
      ∃ name ∈ d.strKeys, name ∉ fields ∧ ¬ kind.Clean name := by
  rw [allowed, raises_refuse]
  simp only [ParseFailure.Improper, hpath, Foreign.clean_append, Foreign.clean_py, true_and,
    Foreign.clean_join (Foreign.clean_py ", "), mem_sorted, List.mem_filter, decide_eq_true_eq,
    not_forall, exists_prop, and_assoc]
  constructor
  · exact fun h => h.2
  · intro h
    obtain ⟨name, hmem, hnot, hname⟩ := h
    refine ⟨?_, name, hmem, hnot, hname⟩
    rw [ne_eq, sorted_eq_nil]
    exact List.ne_nil_of_mem (List.mem_filter.mpr ⟨hmem, decide_eq_true hnot⟩)

/-- A field that was required can be read. -/
theorem exists_get? {d : PyDict} {l : List String} (h : ∀ f ∈ names l, f ∈ d.strKeys) {k : String}
    (hk : k ∈ l) : ∃ v, d.get? (py k) = some v :=
  Option.isSome_iff_exists.mp (PyDict.get?_isSome.mpr (h (py k) (mem_names.mpr ⟨k, hk, rfl⟩)))

theorem get?_ne_none {d : PyDict} {l : List String} (h : ∀ f ∈ names l, f ∈ d.strKeys) {k : String}
    (hk : k ∈ l) : d.get? (py k) ≠ none := by
  obtain ⟨v, hv⟩ := exists_get? h hk
  rw [hv]
  exact Option.some_ne_none v

/-- The check of a field set, behind that of the required fields. -/
theorem stray_iff {d : PyDict} (hs : StrKeys d) {required optional : List String} :
    Stray kind d required optional ↔
      (∀ f ∈ names required, f ∈ d.strKeys) ∧
      ∃ name ∈ d.strKeys, name ∉ names (required ++ optional) ∧ ¬ kind.Clean name := by
  constructor
  · intro h
    obtain ⟨-, hpresent, hstray⟩ := h
    refine ⟨fun f hf => ?_, hstray⟩
    obtain ⟨k, hk, rfl⟩ := mem_names.mp hf
    obtain ⟨v, hv⟩ := hpresent k hk
    exact mem_strKeys_of_get? hv
  · intro h
    obtain ⟨hreq, hstray⟩ := h
    exact ⟨hs, fun k hk => exists_get? hreq hk, hstray⟩

theorem raises_exactFields (hpath : kind.Clean path) {d : PyDict} (hs : StrKeys d)
    {l : List String} :
    Raises (ParseFailure.Improper kind) (exactFields d (names l) path) ↔ Stray kind d l [] := by
  rw [exactFields, raises_bind, stray_iff hs, List.append_nil]
  simp only [raises_required hpath, raises_allowed hpath, required_eq_ok, false_or]
  exact ⟨fun h => ⟨h.choose_spec.1, h.choose_spec.2⟩, fun h => ⟨(), h⟩⟩

theorem raises_item {d : PyDict} {key : PyStr} :
    Raises (ParseFailure.Improper kind) (item d key) ↔ d.get? key = none := by
  unfold item
  cases d.get? key with
  | none => simp [ParseFailure.Improper]
  | some v => simp

theorem raises_nonEmptyString (hpath : kind.Clean path) {v : PyValue} :
    ¬ Raises (ParseFailure.Improper kind) (nonEmptyString v path) := by
  have hno := not_improper hpath (Foreign.clean_py "must be a non-empty string")
  cases v with
  | str s =>
    by_cases h : s = []
    · simpa [nonEmptyString, h] using hno
    · simp [nonEmptyString, h]
  | _ => simpa [nonEmptyString] using hno

theorem raises_boundedInteger (hpath : kind.Clean path) {v : PyValue} {lo hi : Nat} :
    ¬ Raises (ParseFailure.Improper kind) (boundedInteger v path lo hi) := by
  have hno := not_improper hpath (Foreign.clean_py "must be an integer")
  cases v with
  | int n =>
    by_cases h : n < lo ∨ hi < n
    · simp only [boundedInteger, if_pos h, raises_error]
      exact not_improper hpath (by simp)
    · simp [boundedInteger, h]
  | _ => simpa [boundedInteger] using hno

theorem raises_nonEmptyList (hpath : kind.Clean path) {v : PyValue} :
    ¬ Raises (ParseFailure.Improper kind) (nonEmptyList v path) := by
  unfold nonEmptyList
  split
  · exact raises_ok
  · rw [raises_error]
    exact not_improper hpath (Foreign.clean_py _)

/-- The long durations, as the pattern takes them apart. -/
theorem overlong_str {s : PyStr} : Overlong lim (.str s) ↔
    ∃ digits unit, matchDuration s = some (digits, unit) ∧ toInt lim digits = none := by
  have htoInt : ∀ digits : PyStr, toInt lim digits = none ↔
      lim.digits ≠ 0 ∧ lim.digits < digits.length := by
    intro digits
    simp [toInt]
  constructor
  · intro h
    obtain ⟨n, hn, hlim⟩ := h
    rcases hn with hn | hn
    · refine ⟨decimal n, py "ms", ?_, (htoInt _).mpr hlim⟩
      exact matchDuration_eq_some.mpr ⟨.inl rfl, PyValue.str.inj hn, isNumeral_decimal n⟩
    · refine ⟨decimal n, py "s", ?_, (htoInt _).mpr hlim⟩
      exact matchDuration_eq_some.mpr ⟨.inr rfl, PyValue.str.inj hn, isNumeral_decimal n⟩
  · intro h
    obtain ⟨digits, unit, hm, hint⟩ := h
    obtain ⟨hunit, rfl, hnum⟩ := matchDuration_eq_some.mp hm
    have hlim := (htoInt digits).mp hint
    refine ⟨natOfDigits digits, ?_, ?_⟩
    · rw [decimal_natOfDigits hnum]
      rcases hunit with rfl | rfl
      · exact .inl rfl
      · exact .inr rfl
    · rw [decimal_natOfDigits hnum]
      exact hlim

/-- Of a duration only a numeral that is too long for `int` leaves as another
exception. -/
theorem raises_parseDuration (hpath : kind.Clean path) {v : PyValue} :
    Raises (ParseFailure.Improper kind) (parseDuration lim v path) ↔ Overlong lim v := by
  have hno : ∀ s : String, ¬ (ParseFailure.scenarioError path (py s)).Improper kind :=
    fun s => not_improper hpath (Foreign.clean_py s)
  cases v with
  | str s =>
    rw [overlong_str, parseDuration]
    cases hm : matchDuration s with
    | none => simpa using hno "must be an integer duration such as 250ms or 2s"
    | some m =>
      obtain ⟨digits, unit⟩ := m
      cases hint : toInt lim digits with
      | none => simp [ParseFailure.Improper, hint]
      | some magnitude =>
        by_cases hmax : maxDurationMs < if unit = py "ms" then magnitude else magnitude * 1000
        · simpa [hint, hmax] using hno "must not exceed 24h"
        · simp [hint, hmax]
  | _ => simpa [parseDuration, Overlong] using hno "must use an ms or s suffix"

theorem clean_indexed {s : PyStr} (hs : kind.Clean s) (index : Nat) :
    kind.Clean (indexed s index) := by
  simp [indexed, hs]

theorem Fields.get?_ne_none {d : PyDict} {required optional : List String}
    (h : Fields d required optional) {k : String} (hk : k ∈ required) : d.get? (py k) ≠ none := by
  obtain ⟨v, hv⟩ := h.2 k hk
  rw [hv]
  exact Option.some_ne_none v

end Checks

/-! ## Device and application -/

section Parsers

variable {kind : Foreign} {lim : IntLimit} {path : PyStr}

theorem raises_parseDevice {v : PyValue} :
    Raises (ParseFailure.Improper kind) (parseDevice v) ↔ SnagDevice kind v := by
  simp only [parseDevice, raises_bind, raises_mapping, raises_required, raises_allowed,
    raises_item, raises_nonEmptyString, raises_refuse, raises_pure, mapping_eq_ok, required_eq_ok,
    allowed_eq_ok, item_eq_ok, not_improper, Foreign.clean_py, false_or, and_false, exists_false,
    or_false]
  constructor
  · intro h
    obtain ⟨d, ⟨rfl, hs⟩, -, hreq, hstray | ⟨-, -, hnone⟩⟩ := h
    · exact ⟨d, rfl, (stray_iff hs).mpr ⟨hreq, hstray⟩⟩
    · exact absurd hnone (get?_ne_none hreq (List.mem_singleton_self "path"))
  · intro h
    obtain ⟨d, rfl, hstray⟩ := h
    obtain ⟨hreq, hstray'⟩ := (stray_iff hstray.strKeys).mp hstray
    exact ⟨d, ⟨rfl, hstray.strKeys⟩, (), hreq, .inl hstray'⟩

/-- The default of `startup_timeout` is short. -/
theorem not_overlong_default : ¬ Overlong lim (.str (py "2s")) := by
  rw [overlong_str]
  intro h
  obtain ⟨digits, unit, hm, hint⟩ := h
  have htwo : matchDuration (py "2s") = some (decimal 2, py "s") := rfl
  rw [htwo, Option.some.injEq, Prod.mk.injEq] at hm
  rw [← hm.1, toInt_decimal lim (by decide +kernel)] at hint
  cases hint

theorem raises_parseCommand {i : Nat} {items : List PyValue} :
    ¬ Raises (ParseFailure.Improper kind) (eachFrom (fun index argument =>
      nonEmptyString argument (indexed (py "application.command") index)) i items) := by
  rw [raises_eachFrom (A := fun a => ∃ s, a = .str s ∧ s ≠ []) (R := fun _ => False)]
  · simp
  · simp only [nonEmptyString_eq_ok, implies_true]
  · intro i a
    simp only [raises_nonEmptyString (clean_indexed (Foreign.clean_py _) i)]

theorem raises_parseApplication {v : PyValue} :
    Raises (ParseFailure.Improper kind) (parseApplication lim v) ↔ SnagApplication kind lim v := by
  simp only [parseApplication, raises_bind, raises_mapping, raises_required, raises_allowed,
    raises_item, raises_nonEmptyList, raises_parseDuration, raises_parseCommand, raises_pure,
    mapping_eq_ok, required_eq_ok, allowed_eq_ok, item_eq_ok, nonEmptyList_eq_ok,
    parseCommand_eq_ok, Foreign.clean_py, false_or, and_false, exists_false, or_false]
  constructor
  · intro h
    obtain ⟨d, ⟨rfl, hs⟩, -, hreq, hstray | ⟨-, honly, h⟩⟩ := h
    · exact .stray ((stray_iff hs).mpr ⟨hreq, hstray⟩)
    · rcases h with hnone | ⟨v, hv, items, ⟨rfl, hne⟩, -, ⟨command, rfl, -⟩, hlong⟩
      · exact absurd hnone (get?_ne_none hreq (List.mem_singleton_self "command"))
      · cases hw : d.get? (py "startup_timeout") with
        | none =>
          rw [hw] at hlong
          exact absurd hlong not_overlong_default
        | some w =>
          rw [hw] at hlong
          refine .startupTimeout (fields_iff.mpr ⟨hs, hreq, honly⟩) ?_ hv hw hlong
          rintro rfl
          exact hne rfl
  · intro h
    cases h with
    | @stray d hstray =>
      obtain ⟨hreq, hstray'⟩ := (stray_iff hstray.strKeys).mp hstray
      exact ⟨d, ⟨rfl, hstray.strKeys⟩, (), hreq, .inl hstray'⟩
    | @startupTimeout d command w hf hne hv hw hlong =>
      obtain ⟨hs, hreq, honly⟩ := fields_iff.mp hf
      refine ⟨d, ⟨rfl, hs⟩, (), hreq, .inr ⟨(), honly, .inr ⟨_, hv, _, ⟨rfl, ?_⟩, _,
        ⟨command, rfl, rfl⟩, ?_⟩⟩⟩
      · rw [ne_eq, List.map_eq_nil_iff]
        exact hne
      · rw [hw]
        exact hlong

/-! ## Events -/

/-- A field that is read behind the check of a field set. -/
theorem raises_exactItem (hpath : kind.Clean path) {d : PyDict} (hs : StrKeys d) {l : List String}
    {key : String} (hkey : key ∈ l) {α : Type} {f : PyValue → Parse α} :
    Raises (ParseFailure.Improper kind)
        (exactFields d (names l) path >>= fun _ => item d (py key) >>= f) ↔
      Stray kind d l [] ∨
        Fields d l [] ∧ ∃ v, d.get? (py key) = some v ∧
          Raises (ParseFailure.Improper kind) (f v) := by
  simp only [raises_bind, raises_exactFields hpath hs, raises_item, exactFields_eq_ok hs,
    item_eq_ok]
  refine or_congr_right ⟨?_, ?_⟩
  · intro h
    obtain ⟨-, hf, hnone | h⟩ := h
    · exact absurd hnone (hf.get?_ne_none hkey)
    · exact ⟨hf, h⟩
  · intro h
    obtain ⟨hf, h⟩ := h
    exact ⟨(), hf, .inr h⟩

theorem raises_parseFaultEvent (hpath : kind.Clean path) {d : PyDict} (hs : StrKeys d) :
    Raises (ParseFailure.Improper kind) (parseFaultEvent lim d path) ↔ SnagFault kind lim d := by
  simp only [parseFaultEvent, raises_bind, raises_required hpath, raises_item,
    raises_nonEmptyString (hpath.field _), required_eq_ok, item_eq_ok, nonEmptyString_eq_ok,
    false_or]
  constructor
  · intro h
    obtain ⟨-, hreq, hnone | ⟨v, htype, t, ⟨rfl, -⟩, h⟩⟩ := h
    · exact absurd hnone (get?_ne_none hreq (List.mem_singleton_self "type"))
    split at h
    · next ht =>
      subst ht
      rw [raises_exactItem hpath hs (by simp)] at h
      simp only [raises_bind, raises_boundedInteger (hpath.field _), raises_pure, and_false,
        exists_false, or_false] at h
      exact .stray (by simp [faultFields]) htype h
    split at h
    · next ht =>
      subst ht
      rw [raises_exactItem hpath hs (by simp)] at h
      simp only [raises_bind, raises_parseDuration (hpath.field _), raises_pure, and_false,
        exists_false, or_false] at h
      rcases h with hstray | ⟨hf, w, hw, hlong⟩
      · exact .stray (by simp [faultFields]) htype hstray
      · exact .duration hf htype hw hlong
    split at h
    · next ht =>
      subst ht
      rw [raises_exactItem hpath hs (by simp)] at h
      simp only [raises_bind, raises_boundedInteger (hpath.field _), raises_pure, and_false,
        exists_false, or_false] at h
      exact .stray (by simp [faultFields]) htype h
    split at h
    · next ht =>
      subst ht
      simp only [raises_bind, raises_exactFields hpath hs, raises_pure, and_false, exists_false,
        or_false] at h
      exact .stray (by simp [faultFields]) htype h
    · rw [raises_error] at h
      exact absurd h (not_improper (hpath.field _) (Foreign.clean_py _))
  · intro h
    have hreq : ∀ {w}, d.get? (py "type") = some w → ∀ f ∈ names ["type"], f ∈ d.strKeys := by
      intro w hw f hf
      cases List.mem_singleton.mp hf
      exact mem_strKeys_of_get? hw
    cases h with
    | @stray form fields hform htype hstray =>
      simp only [faultFields, List.mem_cons, Prod.mk.injEq, List.not_mem_nil, or_false] at hform
      rcases hform with ⟨rfl, rfl⟩ | ⟨rfl, rfl⟩ | ⟨rfl, rfl⟩ | ⟨rfl, rfl⟩
      · refine ⟨(), hreq htype, .inr ⟨_, htype, _, ⟨rfl, by decide⟩, ?_⟩⟩
        rw [if_pos rfl, raises_exactItem hpath hs (by simp)]
        exact .inl hstray
      · refine ⟨(), hreq htype, .inr ⟨_, htype, _, ⟨rfl, by decide⟩, ?_⟩⟩
        rw [if_neg (by decide), if_pos rfl, raises_exactItem hpath hs (by simp)]
        exact .inl hstray
      · refine ⟨(), hreq htype, .inr ⟨_, htype, _, ⟨rfl, by decide⟩, ?_⟩⟩
        rw [if_neg (by decide), if_neg (by decide), if_pos rfl,
          raises_exactItem hpath hs (by simp)]
        exact .inl hstray
      · refine ⟨(), hreq htype, .inr ⟨_, htype, _, ⟨rfl, by decide⟩, ?_⟩⟩
        rw [if_neg (by decide), if_neg (by decide), if_neg (by decide), if_pos rfl, raises_bind,
          raises_exactFields hpath hs]
        exact .inl hstray
    | @duration w hf htype hw hlong =>
      refine ⟨(), hreq htype, .inr ⟨_, htype, _, ⟨rfl, by decide⟩, ?_⟩⟩
      rw [if_neg (by decide), if_pos rfl, raises_exactItem hpath hs (by simp)]
      have hraise := (raises_parseDuration (hpath.field ".duration")).mpr hlong
      exact .inr ⟨hf, w, hw, raises_bind.mpr (.inl hraise)⟩

/-- With `at` and `action` present, the check of these two is that of a field set. -/
theorem raises_bare (hpath : kind.Clean path) {d : PyDict} (hs : StrKeys d)
    (hat : py "at" ∈ d.strKeys) (haction : py "action" ∈ d.strKeys) :
    Raises (ParseFailure.Improper kind) (allowed d (names ["at", "action"]) path) ↔
      Stray kind d ["at", "action"] [] := by
  rw [raises_allowed hpath, stray_iff hs, List.append_nil]
  refine ⟨fun h => ⟨?_, h⟩, fun h => h.2⟩
  simp only [names, List.map_cons, List.map_nil, List.mem_cons, List.not_mem_nil, or_false,
    forall_eq_or_imp, forall_eq]
  exact ⟨hat, haction⟩

theorem raises_parseAction (hpath : kind.Clean path) {d : PyDict} (hs : StrKeys d)
    (hat : py "at" ∈ d.strKeys) {action : PyStr}
    (haction : d.get? (py "action") = some (.str action)) :
    Raises (ParseFailure.Improper kind) (parseAction lim d action path) ↔
      SnagAction kind lim d := by
  have hbare := raises_bare hpath hs hat (mem_strKeys_of_get? haction)
  unfold parseAction
  constructor
  · intro h
    split at h
    · next ha =>
      subst ha
      rw [raises_exactItem hpath hs (by simp)] at h
      simp only [raises_bind, raises_nonEmptyString (hpath.field _), raises_pure, and_false,
        exists_false, or_false] at h
      exact .stray (by simp [actionFields]) haction h
    split at h
    · next ha =>
      subst ha
      exact .fault haction ((raises_parseFaultEvent hpath hs).mp h)
    split at h
    · next ha =>
      simp only [raises_bind, hbare, raises_pure, and_false, exists_false, or_false] at h
      rcases ha with rfl | rfl
      · exact .stray (by simp [actionFields]) haction h
      · exact .stray (by simp [actionFields]) haction h
    · rw [raises_error] at h
      exact absurd h (not_improper (hpath.field _) (Foreign.clean_py _))
  · intro h
    cases h with
    | @stray form fields hform ha hstray =>
      cases haction.symm.trans ha
      simp only [actionFields, List.mem_cons, Prod.mk.injEq, List.not_mem_nil, or_false] at hform
      rcases hform with ⟨rfl, rfl⟩ | ⟨rfl, rfl⟩ | ⟨rfl, rfl⟩
      · rw [if_pos rfl, raises_exactItem hpath hs (by simp)]
        exact .inl hstray
      · rw [if_neg (by decide), if_neg (by decide), if_pos (.inl rfl), raises_bind, hbare]
        exact .inl hstray
      · rw [if_neg (by decide), if_neg (by decide), if_pos (.inr rfl), raises_bind, hbare]
        exact .inl hstray
    | fault ha hsnag =>
      cases haction.symm.trans ha
      rw [if_neg (by decide), if_pos rfl]
      exact (raises_parseFaultEvent hpath hs).mpr hsnag

theorem SnagFault.fields {d : PyDict} (h : SnagFault kind lim d) :
    StrKeys d ∧ py "at" ∈ d.strKeys := by
  have hfields : ∀ fields ∈ faultFields.map (·.2), "at" ∈ fields := by simp [faultFields]
  cases h with
  | @stray form fields hform _ hstray =>
    obtain ⟨v, hv⟩ := hstray.present "at" (hfields _ (List.mem_map_of_mem hform))
    exact ⟨hstray.strKeys, mem_strKeys_of_get? hv⟩
  | duration hf =>
    exact ⟨(fields_iff.mp hf).1, (fields_iff.mp hf).2.1 _ (by simp [names])⟩

theorem SnagAction.fields {d : PyDict} (h : SnagAction kind lim d) :
    StrKeys d ∧ py "at" ∈ d.strKeys ∧ ∃ s, d.get? (py "action") = some (.str s) ∧ s ≠ [] := by
  have hfields : ∀ form ∈ actionFields, "at" ∈ form.2 ∧ py form.1 ≠ [] := by
    simp only [actionFields, List.forall_mem_cons]
    exact ⟨⟨by simp, by decide⟩, ⟨by simp, by decide⟩, ⟨by simp, by decide⟩, by simp⟩
  cases h with
  | @stray form fields hform ha hstray =>
    obtain ⟨hat, hne⟩ := hfields _ hform
    obtain ⟨v, hv⟩ := hstray.present "at" hat
    exact ⟨hstray.strKeys, mem_strKeys_of_get? hv, _, ha, hne⟩
  | fault ha hsnag => exact ⟨hsnag.fields.1, hsnag.fields.2, _, ha, by decide⟩

theorem raises_parseEvent {timeoutMs index : Nat} {v : PyValue} :
    Raises (ParseFailure.Improper kind) (parseEvent lim timeoutMs index v) ↔
      SnagEvent kind lim timeoutMs v := by
  have hpath : kind.Clean (indexed (py "scenario.events") index) :=
    clean_indexed (Foreign.clean_py _) index
  simp only [parseEvent, raises_bind, raises_mapping hpath, raises_required hpath, raises_item,
    raises_parseDuration (hpath.field _), raises_refuse,
    not_improper (hpath.field _) (Foreign.clean_py _),
    raises_nonEmptyString (hpath.field _), raises_pure, mapping_eq_ok, required_eq_ok, item_eq_ok,
    parseDuration_eq_ok, refuse_eq_ok, nonEmptyString_eq_ok, false_or, and_false, exists_false,
    or_false, Nat.not_lt]
  constructor
  · intro h
    obtain ⟨d, ⟨rfl, hs⟩, -, hreq, h⟩ := h
    obtain ⟨u, hu⟩ := exists_get? hreq (k := "action") (by simp)
    rcases h with hnone | ⟨w, hw, hlong | ⟨ms, hms, -, hle, hnone | ⟨u', hu', a, ⟨rfl, -⟩, h⟩⟩⟩
    · exact absurd hnone (get?_ne_none hreq (k := "at") (by simp))
    · exact .time hs hu hw hlong
    · cases hnone.symm.trans hu
    · have hat := mem_strKeys_of_get? hw
      exact .action hw hms hle ((raises_parseAction hpath hs hat hu').mp h)
  · intro h
    have hreq : ∀ {d : PyDict} {u w}, d.get? (py "action") = some u →
        d.get? (py "at") = some w → ∀ f ∈ names ["at", "action"], f ∈ d.strKeys := by
      intro d u w hu hw
      simp only [names, List.map_cons, List.map_nil, List.mem_cons, List.not_mem_nil, or_false,
        forall_eq_or_imp, forall_eq]
      exact ⟨mem_strKeys_of_get? hw, mem_strKeys_of_get? hu⟩
    cases h with
    | @time d w u hs hu hw hlong =>
      exact ⟨d, ⟨rfl, hs⟩, (), hreq hu hw, .inr ⟨w, hw, .inl hlong⟩⟩
    | @action d w ms hw hms hle hsnag =>
      obtain ⟨hs, hat, a, ha, hne⟩ := hsnag.fields
      exact ⟨d, ⟨rfl, hs⟩, (), hreq ha hw, .inr ⟨w, hw, .inr ⟨ms, hms, (), hle,
        .inr ⟨_, ha, a, ⟨rfl, hne⟩, (raises_parseAction hpath hs hat ha).mpr hsnag⟩⟩⟩⟩

theorem raises_checkOrder {index : Nat} {l : List Nat} :
    ¬ Raises (ParseFailure.Improper kind) (checkOrder index l) := by
  induction l generalizing index with
  | nil => exact raises_ok
  | cons a l ih =>
    cases l with
    | nil => exact raises_ok
    | cons b l =>
      have hpath : kind.Clean (indexed (py "scenario.events") index ++ py ".at") :=
        (clean_indexed (Foreign.clean_py _) index).field _
      simp only [checkOrder, raises_bind, raises_refuse, not_improper hpath (Foreign.clean_py _),
        ih, and_false, exists_false, or_false, not_false_eq_true]

theorem raises_parseEvents {timeoutMs index : Nat} {items : List PyValue} :
    Raises (ParseFailure.Improper kind) (eachFrom (parseEvent lim timeoutMs) index items) ↔
      ∃ before v after, items = before ++ v :: after ∧
        (∀ u ∈ before, ∃ e, DescribesEvent u e ∧ e.atMs.1 ≤ timeoutMs) ∧
        SnagEvent kind lim timeoutMs v := by
  apply raises_eachFrom
  · exact fun i v => exists_eq_ok fun r => parseEvent_eq_ok
  · exact fun i v => raises_parseEvent

theorem raises_parseScenarioBody {v : PyValue} :
    Raises (ParseFailure.Improper kind) (parseScenarioBody lim v) ↔ SnagBody kind lim v := by
  have hpath : kind.Clean (py "scenario") := Foreign.clean_py _
  simp only [parseScenarioBody, raises_bind, raises_mapping hpath, raises_item,
    raises_nonEmptyString, raises_parseDuration, raises_nonEmptyList, raises_parseEvents,
    raises_checkOrder, raises_pure, mapping_eq_ok, item_eq_ok, nonEmptyString_eq_ok,
    parseDuration_eq_ok, nonEmptyList_eq_ok, Foreign.clean_py, false_or, and_false, exists_false,
    or_false]
  constructor
  · intro h
    obtain ⟨d, ⟨rfl, hs⟩, hstray | ⟨_, hf, h⟩⟩ := h
    · exact .stray ((raises_exactFields hpath hs).mp hstray)
    rw [exactFields_eq_ok hs] at hf
    rcases h with hnone | ⟨vn, hn, name, ⟨rfl, hne⟩, h⟩
    · exact absurd hnone (hf.get?_ne_none (k := "name") (by simp))
    rcases h with hnone | ⟨w, hw, hlong | ⟨ms, hms, h⟩⟩
    · exact absurd hnone (hf.get?_ne_none (k := "timeout") (by simp))
    · exact @SnagBody.timeout _ _ d ⟨name, hne⟩ w hf hn hw hlong
    rcases h with hnone | ⟨ve, he, items, ⟨rfl, -⟩, before, v, after, rfl, hbefore, hsnag⟩
    · exact absurd hnone (hf.get?_ne_none (k := "events") (by simp))
    · exact @SnagBody.event _ _ d ⟨name, hne⟩ w ms before v after hf hn hw hms he hbefore hsnag
  · intro h
    cases h with
    | @stray d hstray =>
      exact ⟨d, ⟨rfl, hstray.strKeys⟩, .inl ((raises_exactFields hpath hstray.strKeys).mpr hstray)⟩
    | @timeout d name w hf hn hw hlong =>
      have hs := (fields_iff.mp hf).1
      exact ⟨d, ⟨rfl, hs⟩, .inr ⟨(), (exactFields_eq_ok hs).mpr hf, .inr ⟨_, hn, name.1,
        ⟨rfl, name.2⟩, .inr ⟨w, hw, .inl hlong⟩⟩⟩⟩
    | @event d name w ms before v after hf hn hw hms he hbefore hsnag =>
      have hs := (fields_iff.mp hf).1
      exact ⟨d, ⟨rfl, hs⟩, .inr ⟨(), (exactFields_eq_ok hs).mpr hf, .inr ⟨_, hn, name.1,
        ⟨rfl, name.2⟩, .inr ⟨w, hw, .inr ⟨ms, hms, .inr ⟨_, he, _, ⟨rfl, by simp⟩,
          before, v, after, rfl, hbefore, hsnag⟩⟩⟩⟩⟩⟩

/-! ## Assertions -/

theorem raises_boundedDuration (hpath : kind.Clean path) {timeoutMs : Nat} {v : PyValue} :
    Raises (ParseFailure.Improper kind) (boundedDuration lim v path timeoutMs) ↔
      Overlong lim v := by
  simp only [boundedDuration, raises_bind, raises_parseDuration hpath, raises_refuse,
    not_improper hpath (Foreign.clean_py _), raises_pure, and_false, exists_false, or_false]

theorem raises_optionally {d : PyDict} {key : String} {check : PyValue → Parse PyDict} :
    Raises (ParseFailure.Improper kind) (optionally d key check) ↔
      ∃ v, d.get? (py key) = some v ∧ Raises (ParseFailure.Improper kind) (check v) := by
  unfold optionally
  cases d.get? (py key) with
  | none => simp
  | some v => simp

theorem raises_optionalText (hpath : kind.Clean path) {d : PyDict} {key : String} :
    ¬ Raises (ParseFailure.Improper kind) (optionalText d key path) := by
  have hkey : kind.Clean (path ++ py "." ++ py key) := by simp [hpath]
  rw [optionalText, raises_optionally]
  intro h
  obtain ⟨v, -, h⟩ := h
  simp only [raises_bind, raises_nonEmptyString hkey, raises_pure, and_false, exists_false,
    or_false] at h

/-- The field set of an event assertion, in the order of the parser. -/
theorem strayEvent_iff {d : PyDict} (hs : StrKeys d) :
    Stray kind d ["event", "count"] ["type", "within", "max_latency"] ↔
      (∀ f ∈ names ["event", "count"], f ∈ d.strKeys) ∧
      ∃ name ∈ d.strKeys, name ∉ names ["type", "event", "count", "within", "max_latency"] ∧
        ¬ kind.Clean name := by
  have hperm : ∀ f, f ∈ names (["event", "count"] ++ ["type", "within", "max_latency"]) ↔
      f ∈ names ["type", "event", "count", "within", "max_latency"] := by
    intro f
    simp only [names, List.cons_append, List.nil_append, List.map_cons, List.map_nil,
      List.mem_cons, List.not_mem_nil, or_false]
    tauto
  rw [stray_iff hs]
  simp only [hperm]

theorem raises_parseEventAssertion (hpath : kind.Clean path) {d : PyDict} (hs : StrKeys d)
    (htype : d.get? (py "type") = none ∨ d.get? (py "type") = some (.str (py "event_count")))
    {timeout : Duration} :
    Raises (ParseFailure.Improper kind) (parseEventAssertion lim d path timeout.1) ↔
      SnagAssertion kind lim timeout (.dict d) := by
  simp only [parseEventAssertion, raises_bind, raises_required hpath, raises_allowed hpath,
    raises_item, raises_nonEmptyString (hpath.field _), raises_refuse,
    not_improper (hpath.field _) (Foreign.clean_py _), raises_boundedInteger (hpath.field _),
    raises_optionally, within_eq_ok, parseMaxLatency, raises_boundedDuration (hpath.field _),
    raises_pure,
    required_eq_ok, allowed_eq_ok, item_eq_ok, nonEmptyString_eq_ok, refuse_eq_ok,
    boundedInteger_eq_ok, not_not, false_or, and_false, exists_false, or_false]
  have hwithin : ∀ w, Raises (ParseFailure.Improper kind) (parseWithin lim path timeout.1 w) ↔
      Overlong lim w := by
    intro w
    simp only [parseWithin, raises_bind, raises_boundedDuration (hpath.field _), raises_pure,
      and_false, exists_false, or_false]
  simp only [hwithin]
  constructor
  · intro h
    obtain ⟨-, hreq, hstray | ⟨-, honly, h⟩⟩ := h
    · exact .strayEvent htype ((strayEvent_iff hs).mpr ⟨hreq, hstray⟩)
    have hf := (eventFields_iff hs).mpr ⟨hreq, honly⟩
    rcases h with hnone | ⟨ve, he, event, ⟨rfl, -⟩, -, hmem, h⟩
    · exact absurd hnone (hf.get?_ne_none (k := "event") (by simp))
    rcases h with hnone | ⟨vc, hc, n, ⟨count, rfl, rfl⟩, h⟩
    · exact absurd hnone (hf.get?_ne_none (k := "count") (by simp))
    rcases h with ⟨w, hw, hlong⟩ | ⟨-, ⟨within, ⟨hin, hle⟩, rfl⟩, w, hw, -, rfl, hlong⟩
    · exact .within htype hf he hmem hc hw hlong
    · exact .maxLatency htype hf he hc hin hle hw hlong
  · intro h
    have hother : ∀ {form required optional}, (form, required, optional) ∈ assertionFields →
        d.get? (py "type") ≠ some (.str (py form)) := by
      intro form required optional hform heq
      simp only [assertionFields, List.mem_cons, Prod.mk.injEq, List.not_mem_nil, or_false] at hform
      rcases htype with htype | htype
      · cases heq.symm.trans htype
      · have hstr := PyValue.str.inj (Option.some.inj (heq.symm.trans htype))
        rcases hform with ⟨rfl, -⟩ | ⟨rfl, -⟩ | ⟨rfl, -⟩
        · exact absurd hstr (by decide)
        · exact absurd hstr (by decide)
        · exact absurd hstr (by decide)
    cases h with
    | stray hform heq _ => exact absurd heq (hother hform)
    | strayEvent _ hstray =>
      obtain ⟨hreq, hstray'⟩ := (strayEvent_iff hs).mp hstray
      exact ⟨(), hreq, .inl hstray'⟩
    | @within _ event count w _ hf he hmem hc hw hlong =>
      obtain ⟨hreq, honly⟩ := (eventFields_iff hs).mp hf
      have hne : event ≠ [] := by
        rintro rfl
        exact absurd hmem (by decide)
      exact ⟨(), hreq, .inr ⟨(), honly, .inr ⟨_, he, event, ⟨rfl, hne⟩, (), hmem,
        .inr ⟨_, hc, _, ⟨count, rfl, rfl⟩, .inl ⟨w, hw, hlong⟩⟩⟩⟩⟩
    | @maxLatency _ count within w _ hf he hc hin hle hw hlong =>
      obtain ⟨hreq, honly⟩ := (eventFields_iff hs).mp hf
      exact ⟨(), hreq, .inr ⟨(), honly, .inr ⟨_, he, _, ⟨rfl, by decide⟩, (), by decide,
        .inr ⟨_, hc, _, ⟨count, rfl, rfl⟩, .inr ⟨_, ⟨within, ⟨hin, hle⟩, rfl⟩, w, hw, (), rfl,
          hlong⟩⟩⟩⟩⟩

theorem raises_parseStdoutAssertion (hpath : kind.Clean path) {d : PyDict} (hs : StrKeys d)
    (htype : d.get? (py "type") = some (.str (py "stdout"))) :
    Raises (ParseFailure.Improper kind) (parseStdoutAssertion d path) ↔
      Stray kind d ["type"] ["contains", "not_contains"] := by
  simp only [parseStdoutAssertion, raises_bind, raises_allowed hpath, raises_refuse,
    not_improper hpath (Foreign.clean_py _), raises_optionalText hpath, raises_pure, and_false,
    exists_false, or_false]
  rw [stray_iff hs]
  refine ⟨fun h => ⟨?_, h⟩, fun h => h.2⟩
  intro f hf
  cases List.mem_singleton.mp hf
  exact mem_strKeys_of_get? htype

theorem raises_parseDisconnectAssertion (hpath : kind.Clean path) {d : PyDict} (hs : StrKeys d) :
    Raises (ParseFailure.Improper kind) (parseDisconnectAssertion d path) ↔
      Stray kind d ["type", "expected"] [] := by
  rw [parseDisconnectAssertion, raises_exactItem hpath hs (by simp)]
  refine or_iff_left ?_
  intro h
  obtain ⟨-, v, -, h⟩ := h
  split at h
  · exact raises_pure h
  · exact not_improper (hpath.field _) (Foreign.clean_py _) (raises_error.mp h)

theorem raises_parseKernelWarningsAssertion (hpath : kind.Clean path) {d : PyDict}
    (hs : StrKeys d) :
    Raises (ParseFailure.Improper kind) (parseKernelWarningsAssertion d path) ↔
      Stray kind d ["type", "count"] [] := by
  rw [parseKernelWarningsAssertion, raises_exactItem hpath hs (by simp)]
  simp only [raises_bind, raises_boundedInteger (hpath.field _), raises_pure, and_false,
    exists_false, or_false]

theorem raises_parseAssertion {timeout : Duration} {index : Nat} {v : PyValue} :
    Raises (ParseFailure.Improper kind) (parseAssertion lim timeout.1 index v) ↔
      SnagAssertion kind lim timeout v := by
  have hpath : kind.Clean (indexed (py "assertions") index) :=
    clean_indexed (Foreign.clean_py _) index
  simp only [parseAssertion, raises_bind, raises_mapping hpath, mapping_eq_ok, false_or]
  constructor
  · intro h
    obtain ⟨d, ⟨rfl, hs⟩, h⟩ := h
    split at h
    · next ht => exact (raises_parseEventAssertion hpath hs (assertionType_default.mp ht)).mp h
    split at h
    · next ht =>
      have htype := (assertionType_eq (by decide)).mp ht
      exact .stray (by simp [assertionFields]) htype
        ((raises_parseStdoutAssertion hpath hs htype).mp h)
    split at h
    · next ht =>
      exact .stray (by simp [assertionFields]) ((assertionType_eq (by decide)).mp ht)
        ((raises_parseDisconnectAssertion hpath hs).mp h)
    split at h
    · next ht =>
      exact .stray (by simp [assertionFields]) ((assertionType_eq (by decide)).mp ht)
        ((raises_parseKernelWarningsAssertion hpath hs).mp h)
    · exact absurd (raises_error.mp h) (not_improper (hpath.field _) (Foreign.clean_py _))
  · intro h
    cases h with
    | @stray d form required optional hform htype hstray =>
      have hs := hstray.strKeys
      refine ⟨d, ⟨rfl, hs⟩, ?_⟩
      simp only [assertionFields, List.mem_cons, Prod.mk.injEq, List.not_mem_nil, or_false] at hform
      rw [htype]
      rcases hform with ⟨rfl, rfl, rfl⟩ | ⟨rfl, rfl, rfl⟩ | ⟨rfl, rfl, rfl⟩
      · rw [if_neg (by simp; decide), if_pos (by simp)]
        exact (raises_parseStdoutAssertion hpath hs htype).mpr hstray
      · rw [if_neg (by simp; decide), if_neg (by simp; decide), if_pos (by simp)]
        exact (raises_parseDisconnectAssertion hpath hs).mpr hstray
      · rw [if_neg (by simp; decide), if_neg (by simp; decide), if_neg (by simp; decide),
          if_pos (by simp)]
        exact (raises_parseKernelWarningsAssertion hpath hs).mpr hstray
    | strayEvent htype hstray =>
      refine ⟨_, ⟨rfl, hstray.strKeys⟩, ?_⟩
      rw [if_pos (assertionType_default.mpr htype)]
      exact (raises_parseEventAssertion hpath hstray.strKeys htype).mpr (.strayEvent htype hstray)
    | within htype hf he hmem hc hw hlong =>
      have hs := (fields_iff.mp hf).1
      refine ⟨_, ⟨rfl, hs⟩, ?_⟩
      rw [if_pos (assertionType_default.mpr htype)]
      exact (raises_parseEventAssertion hpath hs htype).mpr (.within htype hf he hmem hc hw hlong)
    | maxLatency htype hf he hc hin hle hw hlong =>
      have hs := (fields_iff.mp hf).1
      refine ⟨_, ⟨rfl, hs⟩, ?_⟩
      rw [if_pos (assertionType_default.mpr htype)]
      exact (raises_parseEventAssertion hpath hs htype).mpr
        (.maxLatency htype hf he hc hin hle hw hlong)

theorem raises_parseAssertions {timeout : Duration} {v : PyValue} :
    Raises (ParseFailure.Improper kind) (parseAssertions lim v timeout.1) ↔
      SnagAssertions kind lim timeout v := by
  have heach : ∀ {items}, Raises (ParseFailure.Improper kind)
      (eachFrom (parseAssertion lim timeout.1) 0 items) ↔
      ∃ before v after, items = before ++ v :: after ∧
        (∀ u ∈ before, ∃ a, DescribesAssertion u a ∧ a.Within timeout) ∧
        SnagAssertion kind lim timeout v := by
    intro items
    apply raises_eachFrom
    · exact fun i v => exists_eq_ok fun r => parseAssertion_eq_ok
    · exact fun i v => raises_parseAssertion
  simp only [parseAssertions, raises_bind, raises_nonEmptyList, Foreign.clean_py, heach,
    nonEmptyList_eq_ok, false_or]
  constructor
  · intro h
    obtain ⟨items, ⟨rfl, -⟩, before, v, after, rfl, hbefore, hsnag⟩ := h
    exact .item hbefore hsnag
  · intro h
    cases h with
    | @item before v after hbefore hsnag =>
      exact ⟨_, ⟨rfl, by simp⟩, before, v, after, rfl, hbefore, hsnag⟩

/-! ## Documents -/

theorem raises_parseSchemaVersion {v : PyValue} :
    ¬ Raises (ParseFailure.Improper kind) (parseSchemaVersion v) := by
  have hno : ∀ s : String,
      ¬ (ParseFailure.scenarioError (py "schema_version") (py s)).Improper kind :=
    fun s => not_improper (Foreign.clean_py _) (Foreign.clean_py s)
  cases v with
  | int n =>
    by_cases h : n = 1
    · simp [parseSchemaVersion, h]
    · simpa [parseSchemaVersion, h] using hno "must equal 1"
  | _ => simpa [parseSchemaVersion] using hno "must be an integer"

/-- **What leaves the parser** and is no proper error: the snags, and nothing
else. -/
theorem raises_parseDocument {doc : PyValue} {source : PyStr} :
    Raises (ParseFailure.Improper kind) (parseDocument lim doc source) ↔ Snag kind lim doc := by
  have hpath : kind.Clean (py "$") := Foreign.clean_py _
  simp only [parseDocument, raises_bind, raises_mapping hpath, raises_item,
    raises_parseSchemaVersion, raises_parseDevice, raises_parseApplication,
    raises_parseScenarioBody, raises_pure, mapping_eq_ok, item_eq_ok, parseSchemaVersion_eq_ok,
    parseDevice_eq_ok, parseApplication_eq_ok, parseScenarioBody_eq_ok, false_or, and_false,
    exists_false, or_false]
  constructor
  · intro h
    obtain ⟨d, ⟨rfl, hs⟩, hstray | ⟨_, hf, h⟩⟩ := h
    · exact .stray ((raises_exactFields hpath hs).mp hstray)
    rw [exactFields_eq_ok hs] at hf
    have hroot : ∀ {key : String}, key ∈ rootFields → d.get? (py key) ≠ none := hf.get?_ne_none
    rcases h with hnone | ⟨_, hversion, _, ⟨rfl, -⟩, h⟩
    · exact absurd hnone (hroot (by simp [rootFields]))
    have hv : Versioned d := ⟨hf, hversion⟩
    rcases h with hnone | ⟨v, hd, hsnag | ⟨path, ⟨hdevice, hdev⟩, h⟩⟩
    · exact absurd hnone (hroot (by simp [rootFields]))
    · exact .device hv hd hsnag
    rcases h with hnone | ⟨w, ha, hsnag | ⟨_, ⟨command, startup, happ, hne, rfl⟩, h⟩⟩
    · exact absurd hnone (hroot (by simp [rootFields]))
    · exact .application hv hd hdevice hdev ha hsnag
    rcases h with hnone | ⟨u, hb, hsnag | ⟨_, ⟨name, timeout, events, hbody, hok, rfl⟩, h⟩⟩
    · exact absurd hnone (hroot (by simp [rootFields]))
    · exact .scenario hv hd hdevice hdev ha happ hne hb hsnag
    rcases h with hnone | ⟨t, ht, h⟩
    · exact absurd hnone (hroot (by simp [rootFields]))
    · exact .assertions hv hd hdevice hdev ha happ hne hb hbody hok ht
        (raises_parseAssertions.mp h)
  · intro h
    have hversioned : ∀ {d : PyDict}, Versioned d →
        StrKeys d ∧ exactFields d (names rootFields) (py "$") = .ok () := by
      intro d hv
      have hs := (fields_iff.mp hv.1).1
      exact ⟨hs, (exactFields_eq_ok hs).mpr hv.1⟩
    cases h with
    | @stray d hstray =>
      exact ⟨d, ⟨rfl, hstray.strKeys⟩, .inl ((raises_exactFields hpath hstray.strKeys).mpr hstray)⟩
    | @device d v hv hd hsnag =>
      obtain ⟨hs, hf⟩ := hversioned hv
      exact ⟨d, ⟨rfl, hs⟩, .inr ⟨(), hf, .inr ⟨_, hv.2, _, ⟨rfl, rfl⟩, .inr ⟨v, hd, .inl hsnag⟩⟩⟩⟩
    | @application d v w path hv hd hdevice hdev ha hsnag =>
      obtain ⟨hs, hf⟩ := hversioned hv
      exact ⟨d, ⟨rfl, hs⟩, .inr ⟨(), hf, .inr ⟨_, hv.2, _, ⟨rfl, rfl⟩, .inr ⟨v, hd, .inr
        ⟨path, ⟨hdevice, hdev⟩, .inr ⟨w, ha, .inl hsnag⟩⟩⟩⟩⟩⟩
    | @scenario d v w u path command startup hv hd hdevice hdev ha happ hne hb hsnag =>
      obtain ⟨hs, hf⟩ := hversioned hv
      exact ⟨d, ⟨rfl, hs⟩, .inr ⟨(), hf, .inr ⟨_, hv.2, _, ⟨rfl, rfl⟩, .inr ⟨v, hd, .inr
        ⟨path, ⟨hdevice, hdev⟩, .inr ⟨w, ha, .inr ⟨_, ⟨command, startup, happ, hne, rfl⟩,
          .inr ⟨u, hb, .inl hsnag⟩⟩⟩⟩⟩⟩⟩⟩
    | @assertions d v w u t path command startup name timeout events hv hd hdevice hdev ha happ
        hne hb hbody hok ht hsnag =>
      obtain ⟨hs, hf⟩ := hversioned hv
      exact ⟨d, ⟨rfl, hs⟩, .inr ⟨(), hf, .inr ⟨_, hv.2, _, ⟨rfl, rfl⟩, .inr ⟨v, hd, .inr
        ⟨path, ⟨hdevice, hdev⟩, .inr ⟨w, ha, .inr ⟨_, ⟨command, startup, happ, hne, rfl⟩,
          .inr ⟨u, hb, .inr ⟨_, ⟨name, timeout, events, hbody, hok, rfl⟩, .inr ⟨t, ht,
            raises_parseAssertions.mpr hsnag⟩⟩⟩⟩⟩⟩⟩⟩⟩⟩

end Parsers

end Scenario

end VDevLab
