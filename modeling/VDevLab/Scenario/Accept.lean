import VDevLab.Scenario.Schema

/-!
# The parser accepts exactly the schema

One equivalence per checker: it succeeds iff the value has the form its
field demands, and then returns the normal form. The equivalence for whole
documents is put together from these in the order of the parser's calls.
-/

namespace VDevLab.Scenario

open Check PyStr

/-! ## Single values -/

/-- All keys of the mapping are strings. -/
def StrKeys (d : PyDict) : Prop := ∀ kv ∈ d, kv.1.isStr = true

theorem mapping_eq_ok {v : PyValue} {path : PyStr} {d : PyDict} :
    mapping v path = .ok d ↔ v = .dict d ∧ StrKeys d := by
  cases v with
  | dict entries =>
    simp only [mapping, bind_eq_ok, refuse_eq_ok, pure_eq_ok, PyValue.dict.injEq, StrKeys,
      List.any_eq_true, not_exists, not_and, Bool.not_eq_true']
    constructor
    · intro h
      obtain ⟨-, h, rfl⟩ := h
      exact ⟨rfl, fun kv hkv => Bool.eq_true_of_not_eq_false (h kv hkv)⟩
    · intro h
      obtain ⟨rfl, h⟩ := h
      exact ⟨(), fun kv hkv => by simp [h kv hkv], rfl⟩
  | _ => simp [mapping]

theorem required_eq_ok {d : PyDict} {fields : List PyStr} {path : PyStr} {u : Unit} :
    required d fields path = .ok u ↔ ∀ f ∈ fields, f ∈ d.strKeys := by
  simp [required, List.filter_eq_nil_iff]

theorem allowed_eq_ok {d : PyDict} {fields : List PyStr} {path : PyStr} {u : Unit} :
    allowed d fields path = .ok u ↔ ∀ f ∈ d.strKeys, f ∈ fields := by
  simp [allowed, List.filter_eq_nil_iff]

theorem item_eq_ok {d : PyDict} {key : PyStr} {v : PyValue} :
    item d key = .ok v ↔ d.get? key = some v := by
  unfold item
  cases d.get? key <;> simp

theorem nonEmptyString_eq_ok {v : PyValue} {path s : PyStr} :
    nonEmptyString v path = .ok s ↔ v = .str s ∧ s ≠ [] := by
  cases v with
  | str t =>
    simp only [nonEmptyString, ite_error_eq_ok, Except.ok.injEq, PyValue.str.injEq]
    constructor
    · intro h
      obtain ⟨hne, rfl⟩ := h
      exact ⟨rfl, hne⟩
    · intro h
      obtain ⟨rfl, hne⟩ := h
      exact ⟨hne, rfl⟩
  | _ => simp [nonEmptyString]

theorem boundedInteger_eq_ok {v : PyValue} {path : PyStr} {lo hi : Nat} {n : Int} :
    boundedInteger v path lo hi = .ok n ↔ ∃ r : Range lo hi, v = .int r.1 ∧ n = r.1 := by
  cases v with
  | int m =>
    simp only [boundedInteger, ite_error_eq_ok, Except.ok.injEq, PyValue.int.injEq, Subtype.exists]
    constructor
    · intro h
      obtain ⟨hrange, rfl⟩ := h
      exact ⟨m.toNat, by omega, by omega, by omega⟩
    · intro h
      obtain ⟨r, hr, rfl, rfl⟩ := h
      exact ⟨by omega, rfl⟩
  | _ => simp [boundedInteger]

theorem nonEmptyList_eq_ok {v : PyValue} {path : PyStr} {items : List PyValue} :
    nonEmptyList v path = .ok items ↔ v = .list items ∧ items ≠ [] := by
  cases v with
  | list l =>
    cases l with
    | nil =>
      simp only [nonEmptyList, reduceCtorEq, PyValue.list.injEq, false_iff, not_and]
      rintro rfl
      simp
    | cons a as =>
      simp only [nonEmptyList, Except.ok.injEq, PyValue.list.injEq]
      constructor
      · rintro rfl
        exact ⟨rfl, by simp⟩
      · exact fun h => h.1
  | _ => simp [nonEmptyList]

/-! ## Durations -/

theorem takeWhile_numeral {n : Nat} {c : CodePoint} (hc : isDigit c = false) (rest : PyStr) :
    (decimal n ++ c :: rest).takeWhile isDigit = decimal n ∧
    (decimal n ++ c :: rest).dropWhile isDigit = c :: rest := by
  have hall := List.all_eq_true.mp (isNumeral_decimal n).2.1
  rw [List.takeWhile_append_of_pos hall, List.dropWhile_append_of_pos hall,
    List.takeWhile_cons, List.dropWhile_cons, hc]
  simp

theorem matchDuration_eq_some {s digits unit : PyStr} :
    matchDuration s = some (digits, unit) ↔
      (unit = py "ms" ∨ unit = py "s") ∧ s = digits ++ unit ∧ IsNumeral digits := by
  simp only [matchDuration]
  constructor
  · intro h
    split at h
    · next hm =>
      simp only [Option.some.injEq, Prod.mk.injEq] at h
      obtain ⟨rfl, rfl⟩ := h
      exact ⟨hm.2, List.takeWhile_append_dropWhile.symm, hm.1⟩
    · cases h
  · intro h
    obtain ⟨hunit, rfl, hnum⟩ := h
    have hsplit : (digits ++ unit).takeWhile isDigit = digits ∧
        (digits ++ unit).dropWhile isDigit = unit := by
      rw [← decimal_natOfDigits hnum]
      rcases hunit with rfl | rfl <;> exact takeWhile_numeral (by decide) _
    rw [hsplit.1, hsplit.2, if_pos ⟨hnum, hunit⟩]

theorem parseDuration_eq_ok {lim : IntLimit} {v : PyValue} {path : PyStr} {ms : Nat} :
    parseDuration lim v path = .ok ms ↔ IsDuration v ms := by
  cases v with
  | str s =>
    simp only [parseDuration, IsDuration, PyValue.str.injEq]
    constructor
    · intro h
      split at h
      · cases h
      · next digits unit hm =>
        obtain ⟨hunit, rfl, hnum⟩ := matchDuration_eq_some.mp hm
        split at h
        · cases h
        · next magnitude hint =>
          rw [ite_error_eq_ok, Except.ok.injEq] at h
          obtain ⟨hmax, rfl⟩ := h
          refine ⟨Nat.not_lt.mp hmax, magnitude, ?_⟩
          -- `int` of a numeral is the number it prints, so no leading zeros are lost
          rw [toInt_eq_some hint, decimal_natOfDigits hnum]
          rcases hunit with rfl | rfl
          · exact .inl ⟨rfl, rfl⟩
          · exact .inr ⟨rfl, if_neg (by decide)⟩
    · intro h
      obtain ⟨hmax, n, ⟨rfl, rfl⟩ | ⟨rfl, rfl⟩⟩ := h
      · have hm : matchDuration (decimal ms ++ py "ms") = some (decimal ms, py "ms") :=
          matchDuration_eq_some.mpr ⟨.inl rfl, rfl, isNumeral_decimal ms⟩
        have hint := toInt_decimal lim (n := ms) (by simp only [maxDurationMs] at hmax; omega)
        simp [hm, hint, Nat.not_lt.mpr hmax]
      · have hm : matchDuration (decimal n ++ py "s") = some (decimal n, py "s") :=
          matchDuration_eq_some.mpr ⟨.inr rfl, rfl, isNumeral_decimal n⟩
        have hint := toInt_decimal lim (n := n) (by simp only [maxDurationMs] at hmax; omega)
        have hunit : ¬ py "s" = py "ms" := by decide
        simp [hm, hint, hunit, Nat.not_lt.mpr hmax]
  | _ => simp [parseDuration, IsDuration]

/-! ## Field sets -/

theorem mem_names {l : List String} {f : PyStr} : f ∈ names l ↔ ∃ k ∈ l, f = py k := by
  simp [names, eq_comm]

theorem fields_iff {d : PyDict} {required optional : List String} :
    Fields d required optional ↔ StrKeys d ∧ (∀ f ∈ names required, f ∈ d.strKeys) ∧
      ∀ f ∈ d.strKeys, f ∈ names (required ++ optional) := by
  constructor
  · intro h
    obtain ⟨honly, hreq⟩ := h
    refine ⟨fun kv hkv => ?_, fun f hf => ?_, fun f hf => ?_⟩
    · obtain ⟨k, -, hk⟩ := honly kv hkv
      rw [hk]
      rfl
    · obtain ⟨k, hk, rfl⟩ := mem_names.mp hf
      obtain ⟨v, hv⟩ := hreq k hk
      exact PyDict.get?_isSome.mp (by rw [hv]; rfl)
    · obtain ⟨v, hv⟩ := PyDict.mem_strKeys.mp hf
      obtain ⟨k, hk, heq⟩ := honly _ hv
      exact mem_names.mpr ⟨k, hk, PyValue.str.inj heq⟩
  · intro h
    obtain ⟨hstr, hreq, honly⟩ := h
    refine ⟨fun kv hkv => ?_, fun k hk => ?_⟩
    · obtain ⟨s, hs⟩ := PyValue.isStr_iff.mp (hstr kv hkv)
      have hmem : s ∈ d.strKeys := PyDict.mem_strKeys.mpr ⟨kv.2, by rw [← hs]; exact hkv⟩
      obtain ⟨k, hk, rfl⟩ := mem_names.mp (honly s hmem)
      exact ⟨k, hk, hs⟩
    · exact Option.isSome_iff_exists.mp
        (PyDict.get?_isSome.mpr (hreq (py k) (mem_names.mpr ⟨k, hk, rfl⟩)))

theorem exactFields_eq_ok {d : PyDict} (hs : StrKeys d) {l : List String} {path : PyStr}
    {u : Unit} : exactFields d (names l) path = .ok u ↔ Fields d l [] := by
  simp only [exactFields, bind_eq_ok, required_eq_ok, allowed_eq_ok, fields_iff, List.append_nil]
  constructor
  · intro h
    obtain ⟨-, hreq, honly⟩ := h
    exact ⟨hs, hreq, honly⟩
  · intro h
    obtain ⟨-, hreq, honly⟩ := h
    exact ⟨(), hreq, honly⟩

/-- A field that was read is among the keys. -/
theorem mem_strKeys_of_get? {d : PyDict} {key : PyStr} {v : PyValue} (h : d.get? key = some v) :
    key ∈ d.strKeys :=
  PyDict.get?_isSome.mp (by rw [h]; rfl)

/-! ## Events -/

section Event

variable {d : PyDict} {lim : IntLimit} {path : PyStr}

/-- The part of a fault form behind its field set: read a field, check it,
add it to the entries. -/
theorem parseFaultEvent_eq_ok (hs : StrKeys d) {r : PyDict} :
    parseFaultEvent lim d path = .ok r ↔
      ∃ f, DescribesFault d f ∧ r = (Action.fault f).entries := by
  simp only [parseFaultEvent, bind_eq_ok, required_eq_ok, item_eq_ok, nonEmptyString_eq_ok]
  constructor
  · intro h
    obtain ⟨-, -, v, htype, t, ⟨rfl, -⟩, h⟩ := h
    split at h
    · next ht =>
      subst ht
      simp only [bind_eq_ok, exactFields_eq_ok hs, item_eq_ok, boundedInteger_eq_ok,
        pure_eq_ok] at h
      obtain ⟨-, hf, v, hv, n, ⟨repeats, rfl, rfl⟩, rfl⟩ := h
      exact ⟨.eio repeats, .eio hf htype hv, rfl⟩
    split at h
    · next ht =>
      subst ht
      simp only [bind_eq_ok, exactFields_eq_ok hs, item_eq_ok, parseDuration_eq_ok,
        pure_eq_ok] at h
      obtain ⟨-, hf, v, hv, ms, hms, rfl⟩ := h
      exact ⟨.delay ⟨ms, hms.1⟩, .delay hf htype hv hms, rfl⟩
    split at h
    · next ht =>
      subst ht
      simp only [bind_eq_ok, exactFields_eq_ok hs, item_eq_ok, boundedInteger_eq_ok,
        pure_eq_ok] at h
      obtain ⟨-, hf, v, hv, n, ⟨bytes, rfl, rfl⟩, rfl⟩ := h
      exact ⟨.partialRead bytes, .partialRead hf htype hv, rfl⟩
    split at h
    · next ht =>
      subst ht
      simp only [bind_eq_ok, exactFields_eq_ok hs, pure_eq_ok] at h
      obtain ⟨-, hf, rfl⟩ := h
      exact ⟨.disconnect, .disconnect hf htype, rfl⟩
    · cases h
  · intro h
    obtain ⟨f, hf, rfl⟩ := h
    -- the field set of the form contains `type`
    have htype : ∃ t, d.get? (py "type") = some (.str t) ∧ t ≠ [] := by
      cases hf <;> exact ⟨_, ‹_›, by decide⟩
    obtain ⟨t, ht, hne⟩ := htype
    refine ⟨(), ?_, .str t, ht, t, ⟨rfl, hne⟩, ?_⟩
    · simp only [names, List.map_cons, List.map_nil, List.mem_singleton, forall_eq]
      exact mem_strKeys_of_get? ht
    · cases hf with
      | @eio repeats hfields htype hrep =>
        cases ht.symm.trans htype
        rw [if_pos rfl]
        simp only [bind_eq_ok, exactFields_eq_ok hs, item_eq_ok, boundedInteger_eq_ok, pure_eq_ok]
        exact ⟨(), hfields, _, hrep, _, ⟨repeats, rfl, rfl⟩, rfl⟩
      | @delay duration v hfields htype hv hms =>
        cases ht.symm.trans htype
        rw [if_neg (by decide), if_pos rfl]
        simp only [bind_eq_ok, exactFields_eq_ok hs, item_eq_ok, parseDuration_eq_ok, pure_eq_ok]
        exact ⟨(), hfields, v, hv, _, hms, rfl⟩
      | @partialRead bytes hfields htype hb =>
        cases ht.symm.trans htype
        rw [if_neg (by decide), if_neg (by decide), if_pos rfl]
        simp only [bind_eq_ok, exactFields_eq_ok hs, item_eq_ok, boundedInteger_eq_ok, pure_eq_ok]
        exact ⟨(), hfields, _, hb, _, ⟨bytes, rfl, rfl⟩, rfl⟩
      | disconnect hfields htype =>
        cases ht.symm.trans htype
        rw [if_neg (by decide), if_neg (by decide), if_neg (by decide), if_pos rfl]
        simp only [bind_eq_ok, exactFields_eq_ok hs, pure_eq_ok]
        exact ⟨(), hfields, rfl⟩

theorem parseAction_eq_ok (hs : StrKeys d) (hat : py "at" ∈ d.strKeys) {action : PyStr}
    (haction : d.get? (py "action") = some (.str action)) {r : PyDict} :
    parseAction lim d action path = .ok r ↔ ∃ a, DescribesAction d a ∧ r = a.entries := by
  -- with `at` and `action` present, allowing these two is demanding exactly these two
  have hbare : ∀ u, allowed d (names ["at", "action"]) path = .ok u ↔
      Fields d ["at", "action"] [] := by
    intro u
    rw [allowed_eq_ok, fields_iff, List.append_nil]
    constructor
    · intro h
      refine ⟨hs, ?_, h⟩
      simp only [names, List.map_cons, List.map_nil, List.mem_cons, List.not_mem_nil, or_false,
        forall_eq_or_imp, forall_eq]
      exact ⟨hat, mem_strKeys_of_get? haction⟩
    · exact fun h => h.2.2
  unfold parseAction
  constructor
  · intro h
    split at h
    · next ha =>
      subst ha
      simp only [bind_eq_ok, exactFields_eq_ok hs, item_eq_ok, nonEmptyString_eq_ok,
        pure_eq_ok] at h
      obtain ⟨-, hf, v, hv, data, ⟨rfl, hne⟩, rfl⟩ := h
      exact ⟨.write ⟨data, hne⟩, .write hf haction hv, rfl⟩
    split at h
    · next ha =>
      subst ha
      obtain ⟨f, hf, rfl⟩ := (parseFaultEvent_eq_ok hs).mp h
      exact ⟨.fault f, .fault haction hf, rfl⟩
    split at h
    · next ha =>
      simp only [bind_eq_ok, hbare, pure_eq_ok] at h
      obtain ⟨-, hf, rfl⟩ := h
      rcases ha with rfl | rfl
      · exact ⟨.clear, .clear hf haction, rfl⟩
      · exact ⟨.reset, .reset hf haction, rfl⟩
    · cases h
  · intro h
    obtain ⟨a, ha, rfl⟩ := h
    cases ha with
    | @write data hf ha hdata =>
      cases haction.symm.trans ha
      rw [if_pos rfl]
      simp only [bind_eq_ok, exactFields_eq_ok hs, item_eq_ok, nonEmptyString_eq_ok, pure_eq_ok]
      exact ⟨(), hf, _, hdata, _, ⟨rfl, data.2⟩, rfl⟩
    | fault ha hf =>
      cases haction.symm.trans ha
      rw [if_neg (by decide), if_pos rfl]
      exact (parseFaultEvent_eq_ok hs).mpr ⟨_, hf, rfl⟩
    | clear hf ha =>
      cases haction.symm.trans ha
      rw [if_neg (by decide), if_neg (by decide), if_pos (.inl rfl)]
      simp only [bind_eq_ok, hbare, pure_eq_ok]
      exact ⟨(), hf, rfl⟩
    | reset hf ha =>
      cases haction.symm.trans ha
      rw [if_neg (by decide), if_neg (by decide), if_pos (.inr rfl)]
      simp only [bind_eq_ok, hbare, pure_eq_ok]
      exact ⟨(), hf, rfl⟩

end Event

theorem DescribesFault.fields {d : PyDict} {f : Fault} (h : DescribesFault d f) :
    StrKeys d ∧ py "at" ∈ d.strKeys := by
  cases h <;> exact ⟨(fields_iff.mp ‹_›).1, (fields_iff.mp ‹_›).2.1 _ (by simp [names])⟩

theorem DescribesAction.fields {d : PyDict} {a : Action} (h : DescribesAction d a) :
    StrKeys d ∧ py "at" ∈ d.strKeys ∧
      ∃ s, d.get? (py "action") = some (.str s) ∧ s ≠ [] := by
  cases h with
  | fault ha hf => exact ⟨hf.fields.1, hf.fields.2, _, ha, by decide⟩
  | write hf ha =>
    exact ⟨(fields_iff.mp hf).1, (fields_iff.mp hf).2.1 _ (by simp [names]), _, ha, by decide⟩
  | clear hf ha =>
    exact ⟨(fields_iff.mp hf).1, (fields_iff.mp hf).2.1 _ (by simp [names]), _, ha, by decide⟩
  | reset hf ha =>
    exact ⟨(fields_iff.mp hf).1, (fields_iff.mp hf).2.1 _ (by simp [names]), _, ha, by decide⟩

theorem parseEvent_eq_ok {lim : IntLimit} {timeoutMs index : Nat} {v : PyValue}
    {r : Nat × PyDict} :
    parseEvent lim timeoutMs index v = .ok r ↔
      ∃ e : Event, (DescribesEvent v e ∧ e.atMs.1 ≤ timeoutMs) ∧ r = (e.atMs.1, e.dict) := by
  simp only [parseEvent, bind_eq_ok, mapping_eq_ok, required_eq_ok, item_eq_ok,
    parseDuration_eq_ok, refuse_eq_ok, nonEmptyString_eq_ok, pure_eq_ok]
  constructor
  · intro h
    obtain ⟨d, ⟨rfl, hs⟩, -, hreq, w, hat, ms, hms, -, hle, va, hva, action, ⟨rfl, -⟩, n, hn,
      rfl⟩ := h
    obtain ⟨a, ha, rfl⟩ := (parseAction_eq_ok hs (mem_strKeys_of_get? hat) hva).mp hn
    exact ⟨⟨⟨ms, hms.1⟩, a⟩, ⟨⟨d, rfl, ha, w, hat, hms⟩, Nat.not_lt.mp hle⟩, rfl⟩
  · intro h
    obtain ⟨e, ⟨⟨d, rfl, ha, w, hat, hms⟩, hle⟩, rfl⟩ := h
    obtain ⟨hs, hmem, action, haction, hne⟩ := ha.fields
    refine ⟨d, ⟨rfl, hs⟩, (), ?_, w, hat, _, hms, (), Nat.not_lt.mpr hle, _, haction, action,
      ⟨rfl, hne⟩, _, (parseAction_eq_ok hs hmem haction).mpr ⟨_, ha, rfl⟩, rfl⟩
    simp only [names, List.map_cons, List.map_nil, List.mem_cons, List.not_mem_nil, or_false,
      forall_eq_or_imp, forall_eq]
    exact ⟨hmem, mem_strKeys_of_get? haction⟩

theorem parseEvents_eq_ok {lim : IntLimit} {timeoutMs index : Nat} {items : List PyValue}
    {r : List (Nat × PyDict)} :
    eachFrom (parseEvent lim timeoutMs) index items = .ok r ↔
      ∃ events, List.Forall₂ DescribesEvent items events ∧
        (∀ e ∈ events, e.atMs.1 ≤ timeoutMs) ∧ r = events.map fun e => (e.atMs.1, e.dict) :=
  eachFrom_eq_ok (f := parseEvent lim timeoutMs) fun _ _ _ => parseEvent_eq_ok

theorem checkOrder_eq_ok {index : Nat} {l : List Nat} {u : Unit} :
    checkOrder index l = .ok u ↔ l.Pairwise (· ≤ ·) := by
  rw [← List.isChain_iff_pairwise]
  induction l generalizing index with
  | nil => simp [checkOrder]
  | cons a l ih =>
    cases l with
    | nil => simp [checkOrder]
    | cons b l =>
      simp only [checkOrder, bind_eq_ok, refuse_eq_ok, ih, List.isChain_cons_cons, Nat.not_lt]
      constructor
      · intro h
        obtain ⟨-, hab, hl⟩ := h
        exact ⟨hab, hl⟩
      · intro h
        obtain ⟨hab, hl⟩ := h
        exact ⟨(), hab, hl⟩

/-- What the events have to satisfy together. -/
structure EventsOk (timeout : Duration) (events : List Event) : Prop where
  ne : events ≠ []
  ordered : events.Pairwise fun e e' => e.atMs.1 ≤ e'.atMs.1
  within : ∀ e ∈ events, e.atMs.1 ≤ timeout.1

theorem parseScenarioBody_eq_ok {lim : IntLimit} {v : PyValue} {r : PyStr × Nat × List PyDict} :
    parseScenarioBody lim v = .ok r ↔
      ∃ (name : Text) (timeout : Duration) (events : List Event),
        DescribesBody v name timeout events ∧ EventsOk timeout events ∧
        r = (name.1, timeout.1, events.map (·.dict)) := by
  simp only [parseScenarioBody, bind_eq_ok, mapping_eq_ok, item_eq_ok, nonEmptyString_eq_ok,
    parseDuration_eq_ok, nonEmptyList_eq_ok, parseEvents_eq_ok, checkOrder_eq_ok, pure_eq_ok]
  constructor
  · intro h
    obtain ⟨d, ⟨rfl, hs⟩, _, hf, vn, hn, name, ⟨rfl, hne⟩, vt, ht, ms, hms, ve, he, items,
      ⟨rfl, hitems⟩, -, ⟨events, hdesc, hwithin, rfl⟩, -, hord, rfl⟩ := h
    rw [exactFields_eq_ok hs] at hf
    -- what the checks established becomes the fields of the schema's types
    refine ⟨⟨name, hne⟩, ⟨ms, hms.1⟩, events,
      ⟨d, rfl, hf, hn, ⟨vt, ht, hms⟩, items, he, hdesc⟩, ⟨?_, ?_, hwithin⟩, ?_⟩
    · rintro rfl
      cases hdesc
      exact hitems rfl
    · simpa [List.pairwise_map] using hord
    · simp [Function.comp_def]
  · intro h
    obtain ⟨name, timeout, events, ⟨d, rfl, hf, hn, ⟨vt, ht, hms⟩, items, he, hdesc⟩,
      ⟨hne, hord, hwithin⟩, rfl⟩ := h
    have hs := (fields_iff.mp hf).1
    refine ⟨d, ⟨rfl, hs⟩, (), (exactFields_eq_ok hs).mpr hf, _, hn, _, ⟨rfl, name.2⟩, vt, ht, _,
      hms, _, he, items, ⟨rfl, ?_⟩, _, ⟨events, hdesc, hwithin, rfl⟩, (), ?_, ?_⟩
    · rintro rfl
      cases hdesc
      exact hne rfl
    · simpa [List.pairwise_map] using hord
    · simp [Function.comp_def]

/-! ## Assertions -/

section Assertion

variable {d : PyDict} {lim : IntLimit} {path : PyStr}

theorem boundedDuration_eq_ok {v : PyValue} {timeoutMs ms : Nat} :
    boundedDuration lim v path timeoutMs = .ok ms ↔ IsDuration v ms ∧ ms ≤ timeoutMs := by
  simp only [boundedDuration, bind_eq_ok, parseDuration_eq_ok, refuse_eq_ok, pure_eq_ok,
    Nat.not_lt]
  constructor
  · intro h
    obtain ⟨_, hms, -, hle, rfl⟩ := h
    exact ⟨hms, hle⟩
  · intro h
    obtain ⟨hms, hle⟩ := h
    exact ⟨ms, hms, (), hle, rfl⟩

/-- An optional field whose checker returns its entry. -/
theorem optionally_eq_ok {α : Type} {key out : String} {check : PyValue → Parse PyDict}
    {P : PyValue → α → Prop} {Q : α → Prop} {f : α → PyValue}
    (hcheck : ∀ v r, check v = .ok r ↔ ∃ a, (P v a ∧ Q a) ∧ r = PyDict.ofList [(out, f a)])
    {r : PyDict} :
    optionally d key check = .ok r ↔
      ∃ o : Option α, (Optionally d key P o ∧ ∀ a ∈ o, Q a) ∧ r = optionalEntry out f o := by
  unfold optionally
  cases hd : d.get? (py key) with
  | none =>
    simp only [pure_eq_ok]
    constructor
    · rintro rfl
      exact ⟨none, ⟨hd, by simp⟩, rfl⟩
    · intro h
      obtain ⟨o, ⟨ho, -⟩, rfl⟩ := h
      cases o with
      | none => rfl
      | some a =>
        obtain ⟨v, hv, -⟩ := ho
        simp [hd] at hv
  | some v =>
    simp only [hcheck]
    constructor
    · intro h
      obtain ⟨a, ⟨hP, hQ⟩, rfl⟩ := h
      exact ⟨some a, ⟨⟨v, hd, hP⟩, by simpa using hQ⟩, rfl⟩
    · intro h
      obtain ⟨o, ⟨ho, hQ⟩, rfl⟩ := h
      cases o with
      | none => simp [Optionally, hd] at ho
      | some a =>
        obtain ⟨w, hw, hP⟩ := ho
        cases hd.symm.trans hw
        exact ⟨a, ⟨hP, hQ a rfl⟩, rfl⟩

theorem optionalText_eq_ok {key : String} {r : PyDict} :
    optionalText d key path = .ok r ↔
      ∃ o : Option Text, Optionally d key (fun v t => v = .str t.1) o ∧
        r = optionalEntry key (fun t => .str t.1) o := by
  unfold optionalText
  rw [@optionally_eq_ok _ _ _ key _ (fun v (t : Text) => v = .str t.1) (fun _ => True)
    (fun t : Text => .str t.1)]
  · simp
  · intro v r
    simp only [bind_eq_ok, nonEmptyString_eq_ok, pure_eq_ok, and_true]
    constructor
    · intro h
      obtain ⟨t, ⟨rfl, hne⟩, rfl⟩ := h
      exact ⟨⟨t, hne⟩, rfl, rfl⟩
    · intro h
      obtain ⟨t, rfl, rfl⟩ := h
      exact ⟨t.1, ⟨rfl, t.2⟩, rfl⟩

theorem within_eq_ok {timeoutMs : Nat} {r : PyDict} :
    optionally d "within" (parseWithin lim path timeoutMs) = .ok r ↔
      ∃ o : Option Duration,
        (Optionally d "within" (fun v ms => IsDuration v ms.1) o ∧ ∀ ms ∈ o, ms.1 ≤ timeoutMs) ∧
        r = optionalEntry "within_ms" (fun ms => .int ms.1) o := by
  apply optionally_eq_ok
  intro v r
  simp only [parseWithin, bind_eq_ok, boundedDuration_eq_ok, pure_eq_ok]
  constructor
  · intro h
    obtain ⟨ms, ⟨hms, hle⟩, rfl⟩ := h
    exact ⟨⟨ms, hms.1⟩, ⟨hms, hle⟩, rfl⟩
  · intro h
    obtain ⟨ms, h, rfl⟩ := h
    exact ⟨ms.1, h, rfl⟩

theorem maxLatency_eq_ok {timeoutMs : Nat} {event : PyStr} {r : PyDict} :
    optionally d "max_latency" (parseMaxLatency lim path timeoutMs event) = .ok r ↔
      ∃ o : Option Duration, (Optionally d "max_latency" (fun v ms => IsDuration v ms.1) o ∧
          ∀ ms ∈ o, ms.1 ≤ timeoutMs ∧ event = py "RECOVERY_SUCCESS") ∧
        r = optionalEntry "max_latency_ms" (fun ms => .int ms.1) o := by
  apply optionally_eq_ok
  intro v r
  simp only [parseMaxLatency, bind_eq_ok, refuse_eq_ok, boundedDuration_eq_ok, pure_eq_ok, not_not]
  constructor
  · intro h
    obtain ⟨-, hevent, ms, ⟨hms, hle⟩, rfl⟩ := h
    exact ⟨⟨ms, hms.1⟩, ⟨hms, hle, hevent⟩, rfl⟩
  · intro h
    obtain ⟨ms, ⟨hms, hle, hevent⟩, rfl⟩ := h
    exact ⟨(), hevent, ms.1, ⟨hms, hle⟩, rfl⟩

/-- The field set of an event assertion, in the order of the parser. -/
theorem eventFields_iff (hs : StrKeys d) :
    Fields d ["event", "count"] ["type", "within", "max_latency"] ↔
      (∀ f ∈ names ["event", "count"], f ∈ d.strKeys) ∧
      ∀ f ∈ d.strKeys, f ∈ names ["type", "event", "count", "within", "max_latency"] := by
  rw [fields_iff]
  have hperm : ∀ f, f ∈ names (["event", "count"] ++ ["type", "within", "max_latency"]) ↔
      f ∈ names ["type", "event", "count", "within", "max_latency"] := by
    intro f
    simp only [names, List.cons_append, List.nil_append, List.map_cons, List.map_nil,
      List.mem_cons, List.not_mem_nil, or_false]
    tauto
  simp only [hperm]
  exact ⟨fun h => h.2, fun h => ⟨hs, h⟩⟩

theorem parseEventAssertion_eq_ok (hs : StrKeys d)
    (htype : d.get? (py "type") = none ∨ d.get? (py "type") = some (.str (py "event_count")))
    {timeout : Duration} {r : PyDict} :
    parseEventAssertion lim d path timeout.1 = .ok r ↔
      ∃ event count within maxLatency recovery,
        DescribesAssertion (.dict d) (.eventCount event count within maxLatency recovery) ∧
        (Assertion.eventCount event count within maxLatency recovery).Within timeout ∧
        r = (Assertion.eventCount event count within maxLatency recovery).dict := by
  simp only [parseEventAssertion, bind_eq_ok, required_eq_ok, allowed_eq_ok, item_eq_ok,
    nonEmptyString_eq_ok, refuse_eq_ok, not_not, boundedInteger_eq_ok, within_eq_ok,
    maxLatency_eq_ok, pure_eq_ok]
  constructor
  · intro h
    obtain ⟨-, hreq, -, honly, ve, he, event, ⟨rfl, -⟩, -, hmem, vc, hc, n, ⟨count, rfl, rfl⟩,
      -, ⟨within, ⟨hwithin, hwle⟩, rfl⟩, -, ⟨maxLatency, ⟨hlat, hlle⟩, rfl⟩, rfl⟩ := h
    refine ⟨⟨event, hmem⟩, count, within, maxLatency, ?_,
      .eventCount ((eventFields_iff hs).mpr ⟨hreq, honly⟩) htype he hc hwithin hlat,
      ⟨hwle, fun ms hms => (hlle ms hms).1⟩, rfl⟩
    intro hsome
    obtain ⟨ms, hms⟩ := Option.isSome_iff_exists.mp hsome
    exact (hlle ms hms).2
  · intro h
    obtain ⟨event, count, within, maxLatency, recovery, hdesc, ⟨hwle, hlle⟩, rfl⟩ := h
    cases hdesc with
    | eventCount hf _ he hc hwithin hlat =>
      obtain ⟨hreq, honly⟩ := (eventFields_iff hs).mp hf
      have hne : event.1 ≠ [] := by
        intro h0
        exact absurd (h0 ▸ event.2) (by decide)
      exact ⟨(), hreq, (), honly, _, he, event.1, ⟨rfl, hne⟩, (), event.2, _, hc, _,
        ⟨count, rfl, rfl⟩, _, ⟨within, ⟨hwithin, hwle⟩, rfl⟩, _,
        ⟨maxLatency, ⟨hlat, fun ms hms => ⟨hlle ms hms, recovery (hms ▸ rfl)⟩⟩, rfl⟩, rfl⟩

theorem parseStdoutAssertion_eq_ok (hs : StrKeys d)
    (htype : d.get? (py "type") = some (.str (py "stdout"))) {r : PyDict} :
    parseStdoutAssertion d path = .ok r ↔
      ∃ contains notContains given,
        DescribesAssertion (.dict d) (.stdout contains notContains given) ∧
        r = (Assertion.stdout contains notContains given).dict := by
  -- a field is present iff its optional value is there
  have hgiven : ∀ {key : String} {o : Option Text},
      Optionally d key (fun v t => v = .str t.1) o → (o.isSome = true ↔ py key ∈ d.strKeys) := by
    intro key o ho
    cases o with
    | none => simp [← PyDict.get?_isSome, show d.get? (py key) = none from ho]
    | some t =>
      obtain ⟨v, hv, -⟩ := ho
      simp [← PyDict.get?_isSome, hv]
  simp only [parseStdoutAssertion, bind_eq_ok, allowed_eq_ok, refuse_eq_ok, optionalText_eq_ok,
    pure_eq_ok]
  constructor
  · intro h
    obtain ⟨-, honly, -, hkeys, -, ⟨contains, hcon, rfl⟩, -, ⟨notContains, hnot, rfl⟩, rfl⟩ := h
    refine ⟨contains, notContains, ?_, .stdout (fields_iff.mpr ⟨hs, ?_, honly⟩) htype hcon hnot,
      rfl⟩
    · rw [hgiven hcon, hgiven hnot]
      tauto
    · simp only [names, List.map_cons, List.map_nil, List.mem_singleton, forall_eq]
      exact mem_strKeys_of_get? htype
  · intro h
    obtain ⟨contains, notContains, given, hdesc, rfl⟩ := h
    cases hdesc with
    | stdout hf _ hcon hnot =>
      refine ⟨(), (fields_iff.mp hf).2.2, (), ?_, _, ⟨contains, hcon, rfl⟩, _,
        ⟨notContains, hnot, rfl⟩, rfl⟩
      rw [hgiven hcon, hgiven hnot] at given
      tauto

theorem parseDisconnectAssertion_eq_ok (hs : StrKeys d)
    (htype : d.get? (py "type") = some (.str (py "disconnect"))) {r : PyDict} :
    parseDisconnectAssertion d path = .ok r ↔
      ∃ expected, DescribesAssertion (.dict d) (.disconnect expected) ∧
        r = (Assertion.disconnect expected).dict := by
  simp only [parseDisconnectAssertion, bind_eq_ok, exactFields_eq_ok hs, item_eq_ok]
  constructor
  · intro h
    obtain ⟨-, hf, v, hv, h⟩ := h
    cases v with
    | bool expected => exact ⟨expected, .disconnect hf htype hv, (pure_eq_ok.mp h).symm⟩
    | _ => cases h
  · intro h
    obtain ⟨expected, hdesc, rfl⟩ := h
    cases hdesc with
    | disconnect hf _ hv => exact ⟨(), hf, _, hv, rfl⟩

theorem parseKernelWarningsAssertion_eq_ok (hs : StrKeys d)
    (htype : d.get? (py "type") = some (.str (py "kernel_warnings"))) {r : PyDict} :
    parseKernelWarningsAssertion d path = .ok r ↔
      ∃ count, DescribesAssertion (.dict d) (.kernelWarnings count) ∧
        r = (Assertion.kernelWarnings count).dict := by
  simp only [parseKernelWarningsAssertion, bind_eq_ok, exactFields_eq_ok hs, item_eq_ok,
    boundedInteger_eq_ok, pure_eq_ok]
  constructor
  · intro h
    obtain ⟨-, hf, v, hv, n, ⟨count, rfl, rfl⟩, rfl⟩ := h
    exact ⟨count, .kernelWarnings hf htype hv, rfl⟩
  · intro h
    obtain ⟨count, hdesc, rfl⟩ := h
    cases hdesc with
    | kernelWarnings hf _ hv => exact ⟨(), hf, _, hv, _, ⟨count, rfl, rfl⟩, rfl⟩

end Assertion

theorem DescribesAssertion.fields {v : PyValue} {a : Assertion} (h : DescribesAssertion v a) :
    ∃ d, v = .dict d ∧ StrKeys d := by
  cases h <;> exact ⟨_, rfl, (fields_iff.mp ‹_›).1⟩

/-- The discriminator of an assertion, with its default. -/
theorem assertionType_default {d : PyDict} :
    ((d.get? (py "type")).getD (.str (py "event_count"))).eqStr (py "event_count") = true ↔
      d.get? (py "type") = none ∨ d.get? (py "type") = some (.str (py "event_count")) := by
  rw [PyValue.eqStr_iff]
  cases d.get? (py "type") <;> simp

theorem assertionType_eq {d : PyDict} {t : PyStr} (ht : t ≠ py "event_count") :
    ((d.get? (py "type")).getD (.str (py "event_count"))).eqStr t = true ↔
      d.get? (py "type") = some (.str t) := by
  rw [PyValue.eqStr_iff]
  cases d.get? (py "type") with
  | none => simpa using ht.symm
  | some w => simp

theorem parseAssertion_eq_ok {lim : IntLimit} {timeout : Duration} {index : Nat} {v : PyValue}
    {r : PyDict} :
    parseAssertion lim timeout.1 index v = .ok r ↔
      ∃ a, (DescribesAssertion v a ∧ a.Within timeout) ∧ r = a.dict := by
  simp only [parseAssertion, bind_eq_ok, mapping_eq_ok]
  constructor
  · intro h
    obtain ⟨d, ⟨rfl, hs⟩, h⟩ := h
    split at h
    · next ht =>
      obtain ⟨_, _, _, _, _, hdesc, hw, rfl⟩ :=
        (parseEventAssertion_eq_ok hs (assertionType_default.mp ht)).mp h
      exact ⟨_, ⟨hdesc, hw⟩, rfl⟩
    split at h
    · next ht =>
      obtain ⟨_, _, _, hdesc, rfl⟩ :=
        (parseStdoutAssertion_eq_ok hs ((assertionType_eq (by decide)).mp ht)).mp h
      exact ⟨_, ⟨hdesc, trivial⟩, rfl⟩
    split at h
    · next ht =>
      obtain ⟨_, hdesc, rfl⟩ :=
        (parseDisconnectAssertion_eq_ok hs ((assertionType_eq (by decide)).mp ht)).mp h
      exact ⟨_, ⟨hdesc, trivial⟩, rfl⟩
    split at h
    · next ht =>
      obtain ⟨_, hdesc, rfl⟩ :=
        (parseKernelWarningsAssertion_eq_ok hs ((assertionType_eq (by decide)).mp ht)).mp h
      exact ⟨_, ⟨hdesc, trivial⟩, rfl⟩
    · cases h
  · intro h
    obtain ⟨a, ⟨hdesc, hw⟩, rfl⟩ := h
    obtain ⟨d, rfl, hs⟩ := hdesc.fields
    refine ⟨d, ⟨rfl, hs⟩, ?_⟩
    cases hdesc with
    | eventCount hf htype he hc hwithin hlat =>
      rw [if_pos (assertionType_default.mpr htype)]
      exact (parseEventAssertion_eq_ok hs htype).mpr
        ⟨_, _, _, _, _, .eventCount hf htype he hc hwithin hlat, hw, rfl⟩
    | stdout hf htype hcon hnot =>
      rw [htype, if_neg (by simp; decide), if_pos (by simp)]
      exact (parseStdoutAssertion_eq_ok hs htype).mpr ⟨_, _, _, .stdout hf htype hcon hnot, rfl⟩
    | disconnect hf htype hv =>
      rw [htype, if_neg (by simp; decide), if_neg (by simp; decide), if_pos (by simp)]
      exact (parseDisconnectAssertion_eq_ok hs htype).mpr ⟨_, .disconnect hf htype hv, rfl⟩
    | kernelWarnings hf htype hv =>
      rw [htype, if_neg (by simp; decide), if_neg (by simp; decide), if_neg (by simp; decide),
        if_pos (by simp)]
      exact (parseKernelWarningsAssertion_eq_ok hs htype).mpr
        ⟨_, .kernelWarnings hf htype hv, rfl⟩

theorem parseAssertions_eq_ok {lim : IntLimit} {timeout : Duration} {v : PyValue}
    {r : List PyDict} :
    parseAssertions lim v timeout.1 = .ok r ↔
      ∃ items assertions, v = .list items ∧ List.Forall₂ DescribesAssertion items assertions ∧
        assertions ≠ [] ∧ (∀ a ∈ assertions, a.Within timeout) ∧ r = assertions.map (·.dict) := by
  have heach : ∀ {items r}, eachFrom (parseAssertion lim timeout.1) 0 items = .ok r ↔
      ∃ as, List.Forall₂ DescribesAssertion items as ∧ (∀ a ∈ as, a.Within timeout) ∧
        r = as.map (·.dict) :=
    eachFrom_eq_ok (f := parseAssertion lim timeout.1) fun _ _ _ => parseAssertion_eq_ok
  simp only [parseAssertions, bind_eq_ok, nonEmptyList_eq_ok, heach]
  constructor
  · intro h
    obtain ⟨items, ⟨rfl, hne⟩, as, hdesc, hw, rfl⟩ := h
    refine ⟨items, as, rfl, hdesc, ?_, hw, rfl⟩
    rintro rfl
    cases hdesc
    exact hne rfl
  · intro h
    obtain ⟨items, as, rfl, hdesc, hne, hw, rfl⟩ := h
    refine ⟨items, ⟨rfl, ?_⟩, as, hdesc, hw, rfl⟩
    rintro rfl
    cases hdesc
    exact hne rfl

/-! ## Device, application, document -/

theorem parseDevice_eq_ok {v : PyValue} {path : PyStr} :
    parseDevice v = .ok path ↔ DescribesDevice v path ∧ py "/dev/" <+: path := by
  simp only [parseDevice, bind_eq_ok, mapping_eq_ok, required_eq_ok, allowed_eq_ok, item_eq_ok,
    nonEmptyString_eq_ok, refuse_eq_ok, pure_eq_ok, not_not, List.isPrefixOf_iff_prefix]
  constructor
  · intro h
    obtain ⟨d, ⟨rfl, hs⟩, -, hreq, -, honly, v, hv, s, ⟨rfl, -⟩, -, hdev, rfl⟩ := h
    exact ⟨⟨d, rfl, fields_iff.mpr ⟨hs, hreq, honly⟩, hv⟩, hdev⟩
  · intro h
    obtain ⟨⟨d, rfl, hf, hv⟩, hdev⟩ := h
    obtain ⟨hs, hreq, honly⟩ := fields_iff.mp hf
    refine ⟨d, ⟨rfl, hs⟩, (), hreq, (), honly, _, hv, path, ⟨rfl, ?_⟩, (), hdev, rfl⟩
    rintro rfl
    exact absurd hdev (by decide)

theorem parseCommand_eq_ok {items : List PyValue} {r : List PyStr} :
    eachFrom (fun index argument =>
        nonEmptyString argument (indexed (py "application.command") index)) 0 items = .ok r ↔
      ∃ command : List Text, items = (command.map fun t => .str t.1) ∧
        r = command.map (·.1) := by
  rw [eachFrom_eq_ok (P := fun v (t : Text) => v = .str t.1) (Q := fun _ => True)
    (g := fun t : Text => t.1)]
  · constructor
    · intro h
      obtain ⟨command, hf, -, rfl⟩ := h
      refine ⟨command, ?_, rfl⟩
      rwa [← List.forall₂_map_right_iff, List.forall₂_eq_eq_eq] at hf
    · intro h
      obtain ⟨command, rfl, rfl⟩ := h
      refine ⟨command, ?_, by simp, rfl⟩
      rw [← List.forall₂_map_right_iff, List.forall₂_eq_eq_eq]
  · intro i v s
    rw [nonEmptyString_eq_ok]
    constructor
    · intro h
      obtain ⟨rfl, hne⟩ := h
      exact ⟨⟨s, hne⟩, ⟨rfl, trivial⟩, rfl⟩
    · intro h
      obtain ⟨t, ⟨rfl, -⟩, rfl⟩ := h
      exact ⟨rfl, t.2⟩

/-- The default of `startup_timeout`. -/
theorem startup_iff {d : PyDict} {ms : Nat} :
    IsDuration ((d.get? (py "startup_timeout")).getD (.str (py "2s"))) ms ↔
      (d.get? (py "startup_timeout") = none ∧ ms = 2000) ∨
      ∃ w, d.get? (py "startup_timeout") = some w ∧ IsDuration w ms := by
  cases hd : d.get? (py "startup_timeout") with
  | some w => simp
  | none =>
    have htwo : IsDuration (.str (py "2s")) 2000 := ⟨by decide, 2, .inr ⟨rfl, rfl⟩⟩
    simp only [Option.getD_none, reduceCtorEq, false_and, exists_false, or_false, true_and]
    constructor
    · -- the parser is a function, so "2s" has one duration
      intro h
      have h1 := (@parseDuration_eq_ok ⟨0, .inl rfl⟩ _ [] _).mpr h
      have h2 := (@parseDuration_eq_ok ⟨0, .inl rfl⟩ _ [] _).mpr htwo
      exact Except.ok.inj (h1.symm.trans h2)
    · rintro rfl
      exact htwo

theorem parseApplication_eq_ok {lim : IntLimit} {v : PyValue} {r : List PyStr × Nat} :
    parseApplication lim v = .ok r ↔
      ∃ (command : List Text) (startup : Duration), DescribesApplication v command startup ∧
        command ≠ [] ∧ r = (command.map (·.1), startup.1) := by
  simp only [parseApplication, bind_eq_ok, mapping_eq_ok, required_eq_ok, allowed_eq_ok,
    item_eq_ok, nonEmptyList_eq_ok, parseCommand_eq_ok, parseDuration_eq_ok, startup_iff,
    pure_eq_ok]
  constructor
  · intro h
    obtain ⟨d, ⟨rfl, hs⟩, -, hreq, -, honly, v, hv, items, ⟨rfl, hne⟩, -, ⟨command, rfl, rfl⟩,
      ms, hms, rfl⟩ := h
    have hbound : ms ≤ maxDurationMs := by
      rcases hms with ⟨-, rfl⟩ | ⟨w, -, hw⟩
      · decide
      · exact hw.1
    refine ⟨command, ⟨ms, hbound⟩, ⟨d, rfl, fields_iff.mpr ⟨hs, hreq, honly⟩, hv, hms⟩, ?_, rfl⟩
    rintro rfl
    exact hne rfl
  · intro h
    obtain ⟨command, startup, ⟨d, rfl, hf, hv, hms⟩, hne, rfl⟩ := h
    obtain ⟨hs, hreq, honly⟩ := fields_iff.mp hf
    refine ⟨d, ⟨rfl, hs⟩, (), hreq, (), honly, _, hv, _, ⟨rfl, ?_⟩, _, ⟨command, rfl, rfl⟩, _,
      hms, rfl⟩
    rw [ne_eq, List.map_eq_nil_iff]
    exact hne

theorem parseSchemaVersion_eq_ok {v : PyValue} {n : Int} :
    parseSchemaVersion v = .ok n ↔ v = .int 1 ∧ n = 1 := by
  cases v with
  | int m =>
    simp only [parseSchemaVersion, ite_error_eq_ok, Except.ok.injEq, PyValue.int.injEq, not_not]
    constructor
    · intro h
      obtain ⟨hm, rfl⟩ := h
      exact ⟨hm, hm⟩
    · intro h
      obtain ⟨rfl, rfl⟩ := h
      exact ⟨rfl, rfl⟩
  | _ => simp [parseSchemaVersion]

theorem parseDocument_eq_ok {lim : IntLimit} {doc : PyValue} {source : PyStr}
    {sd : ScenarioDefinition} :
    parseDocument lim doc source = .ok sd ↔
      ∃ sc, Describes doc sc ∧ sd = sc.definition source := by
  simp only [parseDocument, bind_eq_ok, mapping_eq_ok, item_eq_ok, parseSchemaVersion_eq_ok,
    parseDevice_eq_ok, parseApplication_eq_ok, parseScenarioBody_eq_ok, pure_eq_ok]
  constructor
  · intro h
    obtain ⟨d, ⟨rfl, hs⟩, _, hf, vv, hv, version, ⟨rfl, rfl⟩, vd, hd, path, ⟨hdevice, hdev⟩,
      va, ha, _, ⟨command, startup, happ, hcommand, rfl⟩,
      vs, hsc, _, ⟨name, timeout, events, hbody, hok, rfl⟩, vas, has, assertions, hassert, rfl⟩ := h
    rw [exactFields_eq_ok hs] at hf
    -- the assertions are read against the timeout of the body
    obtain ⟨items, as, rfl, hdesc, hne, hw, rfl⟩ := parseAssertions_eq_ok.mp hassert
    exact ⟨⟨⟨path, hdev⟩, command, hcommand, startup, name, timeout, events, hok.ne, hok.ordered,
        hok.within, as, hne, hw⟩,
      ⟨d, rfl, hf, hv, ⟨vd, hd, hdevice⟩, ⟨va, ha, happ⟩, ⟨vs, hsc, hbody⟩, items, has, hdesc⟩,
      rfl⟩
  · intro h
    obtain ⟨sc, ⟨d, rfl, hf, hv, ⟨vd, hd, hdevice⟩, ⟨va, ha, happ⟩, ⟨vs, hsc, hbody⟩, items, has,
      hdesc⟩, rfl⟩ := h
    have hs := (fields_iff.mp hf).1
    refine ⟨d, ⟨rfl, hs⟩, (), (exactFields_eq_ok hs).mpr hf, _, hv, _, ⟨rfl, rfl⟩, vd, hd, _,
      ⟨hdevice, sc.devicePath.2⟩, va, ha, _, ⟨_, _, happ, sc.command_ne, rfl⟩, vs, hsc, _,
      ⟨_, _, _, hbody, ⟨sc.events_ne, sc.events_ordered, sc.events_within⟩, rfl⟩, _, has, _,
      parseAssertions_eq_ok.mpr ⟨items, _, rfl, hdesc, sc.assertions_ne, sc.assertions_within,
        rfl⟩, rfl⟩

/-! ## `parse_scenario` -/

/-- An accepted text is the normal form of a scenario. -/
theorem parseScenario_definition {safeLoad : PyStr → Except LoadError PyValue} {lim : IntLimit}
    {text source : PyStr} {sd : ScenarioDefinition}
    (h : parseScenario safeLoad lim text source = .ok sd) :
    ∃ sc : Scenario, sd = sc.definition source := by
  unfold parseScenario at h
  split at h
  · cases h
  · cases h
  · obtain ⟨sc, -, rfl⟩ := parseDocument_eq_ok.mp h
    exact ⟨sc, rfl⟩

/-- **The parser accepts exactly schema version 1** and returns its normal form. -/
theorem parseScenario_iff (safeLoad : PyStr → Except LoadError PyValue) (lim : IntLimit)
    (text source : PyStr) (sd : ScenarioDefinition) :
    parseScenario safeLoad lim text source = .ok sd ↔
      ∃ doc sc, safeLoad text = .ok doc ∧ Describes doc sc ∧ sd = sc.definition source := by
  unfold parseScenario
  cases hload : safeLoad text with
  | error e => cases e <;> simp
  | ok doc => simp [parseDocument_eq_ok]

/-- The document of the format description: three EIO reads, then data. -/
def threeEioDocument : PyValue :=
  .dict (PyDict.ofList [("schema_version", .int 1),
    ("device", .dict (PyDict.ofList [("path", .str (py "/dev/vdevlab0"))])),
    ("application", .dict (PyDict.ofList [("command", .list [.str (py "./vtemp-monitor")])])),
    ("scenario", .dict (PyDict.ofList [("name", .str (py "three-eio-recovery")),
      ("timeout", .str (py "5s")),
      ("events", .list [
        .dict (PyDict.ofList [("at", .str (py "100ms")), ("action", .str (py "fault")),
          ("type", .str (py "eio")), ("repeat", .int 3)]),
        .dict (PyDict.ofList [("at", .str (py "200ms")), ("action", .str (py "write")),
          ("data", .str (py "42\n"))])])])),
    ("assertions", .list [.dict (PyDict.ofList [("event", .str (py "READ_RETRY")), ("count", .int 3),
      ("within", .str (py "2s"))])])])

example : (parseDocument defaultIntLimit threeEioDocument []).toOption.map
    (fun sd => (sd.startupTimeoutMs, sd.timeoutMs, sd.events.length)) = some (2000, 5000, 2) := by
  decide

end VDevLab.Scenario
