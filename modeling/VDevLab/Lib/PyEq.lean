import VDevLab.Lib.PyValue

/-!
# Documents up to the order of their dicts

Two dicts are equal in Python when they map the same keys to equal values,
whatever their order. `Same` is this equality for documents, with nothing
else identified: no integer is a float, and no two floats are the same.
-/

namespace PyDict

/-! ## Keys -/

/-- The keys are strings, and all different. -/
structure Keyed (d : PyDict) : Prop where
  nodup : (d.map Prod.fst).Nodup
  strings : ∀ kv ∈ d, ∃ k, kv.1 = .str k

theorem Keyed.nil : Keyed [] := ⟨List.nodup_nil, by simp⟩

theorem Keyed.perm {d e : PyDict} (h : Keyed d) (hperm : d.Perm e) : Keyed e :=
  ⟨(hperm.map Prod.fst).nodup_iff.mp h.nodup, fun kv hkv => h.strings kv (hperm.mem_iff.mpr hkv)⟩

theorem Keyed.filter {d : PyDict} (h : Keyed d) (p : PyValue × PyValue → Bool) :
    Keyed (d.filter p) :=
  ⟨h.nodup.sublist (List.filter_sublist.map Prod.fst),
    fun kv hkv => h.strings kv (List.mem_of_mem_filter hkv)⟩

/-- An old key keeps its place. -/
theorem keys_insert_of_mem {d : PyDict} {key : PyStr} (h : .str key ∈ d.map Prod.fst)
    (v : PyValue) : (d.insert key v).map Prod.fst = d.map Prod.fst := by
  induction d with
  | nil => cases h
  | cons kw d ih =>
    obtain ⟨k, w⟩ := kw
    by_cases hk : k.eqStr key = true
    · simp [insert, hk]
    · have hrest : .str key ∈ d.map Prod.fst := by
        rcases List.mem_cons.mp h with hkey | hrest
        · exact absurd (PyValue.eqStr_iff.mpr hkey.symm) hk
        · exact hrest
      simp [insert, hk, ih hrest]

/-- A new key comes last. -/
theorem insert_of_notMem {d : PyDict} {key : PyStr} (h : .str key ∉ d.map Prod.fst)
    (v : PyValue) : d.insert key v = d ++ [(.str key, v)] := by
  induction d with
  | nil => rfl
  | cons kw d ih =>
    obtain ⟨k, w⟩ := kw
    simp only [List.map_cons, List.mem_cons, not_or] at h
    have hk : k.eqStr key = false := by
      rw [Bool.eq_false_iff]
      exact fun hk => h.1 (PyValue.eqStr_iff.mp hk).symm
    simp [insert, hk, ih h.2]

theorem mem_insert {d : PyDict} {key : PyStr} {v : PyValue} {kv : PyValue × PyValue}
    (h : kv ∈ d.insert key v) : kv ∈ d ∨ kv = (.str key, v) := by
  induction d with
  | nil => exact .inr (List.mem_singleton.mp h)
  | cons kw d ih =>
    obtain ⟨k, w⟩ := kw
    by_cases hk : k.eqStr key = true
    · simp only [insert, hk, if_true, List.mem_cons] at h
      rcases h with rfl | h
      · rw [PyValue.eqStr_iff.mp hk]
        exact .inr rfl
      · exact .inl (List.mem_cons_of_mem _ h)
    · simp only [insert, hk, Bool.false_eq_true, if_false, List.mem_cons] at h
      rcases h with rfl | h
      · exact .inl List.mem_cons_self
      · exact (ih h).imp_left (List.mem_cons_of_mem _)

theorem Keyed.insert {d : PyDict} (h : Keyed d) (key : PyStr) (v : PyValue) :
    Keyed (d.insert key v) := by
  constructor
  · by_cases hold : .str key ∈ d.map Prod.fst
    · rw [keys_insert_of_mem hold]
      exact h.nodup
    · rw [insert_of_notMem hold, List.map_append, List.nodup_append]
      refine ⟨h.nodup, List.nodup_singleton _, ?_⟩
      rintro k hk _ hkey rfl
      cases List.mem_singleton.mp hkey
      exact hold hk
  · intro kv hkv
    rcases mem_insert hkv with hold | rfl
    · exact h.strings kv hold
    · exact ⟨key, rfl⟩

theorem get?_of_mem {d : PyDict} (h : (d.map Prod.fst).Nodup) {key : PyStr} {v : PyValue}
    (hmem : (.str key, v) ∈ d) : d.get? key = some v := by
  induction d with
  | nil => cases hmem
  | cons kw d ih =>
    obtain ⟨k, w⟩ := kw
    rw [List.map_cons, List.nodup_cons] at h
    rcases List.mem_cons.mp hmem with heq | hrest
    · cases heq
      simp [get?]
    · have hk : k.eqStr key = false := by
        rw [Bool.eq_false_iff]
        intro hk
        rw [PyValue.eqStr_iff.mp hk] at h
        exact h.1 (List.mem_map.mpr ⟨_, hrest, rfl⟩)
      simp [get?, hk, ih h.2 hrest]

theorem mem_of_get? {d : PyDict} {key : PyStr} {v : PyValue} (h : d.get? key = some v) :
    (.str key, v) ∈ d := by
  induction d with
  | nil => cases h
  | cons kw d ih =>
    obtain ⟨k, w⟩ := kw
    simp only [get?] at h
    split at h
    · next hk =>
      rw [PyValue.eqStr_iff.mp hk, Option.some.inj h]
      exact List.mem_cons_self
    · exact List.mem_cons_of_mem _ (ih h)

end PyDict

namespace PyValue

/-! ## Documents -/

/-- What a JSON text can stand for: the keys of every dict are strings, and
all different. -/
inductive Document : PyValue → Prop
  | none : Document .none
  | bool (b : Bool) : Document (.bool b)
  | int (n : Int) : Document (.int n)
  | float (x : Binary64) : Document (.float x)
  | str (s : PyStr) : Document (.str s)
  | list {items : List PyValue} : (∀ v ∈ items, Document v) → Document (.list items)
  | dict {d : PyDict} : d.Keyed → (∀ kv ∈ d, Document kv.2) → Document (.dict d)

theorem Document.insert {d : PyDict} (h : Document (.dict d)) (key : PyStr) {v : PyValue}
    (hv : Document v) : Document (.dict (d.insert key v)) := by
  cases h with
  | dict hkeyed hvalues =>
    refine .dict (hkeyed.insert key v) ?_
    intro kv hkv
    rcases PyDict.mem_insert hkv with hold | rfl
    · exact hvalues kv hold
    · exact hv

theorem Document.filter {d : PyDict} (h : Document (.dict d)) (p : PyValue × PyValue → Bool) :
    Document (.dict (d.filter p)) := by
  cases h with
  | dict hkeyed hvalues =>
    exact .dict (hkeyed.filter p) fun kv hkv => hvalues kv (List.mem_of_mem_filter hkv)

mutual

/-- A test on all scalars of a value, its keys among them. -/
def everyScalar (p : PyValue → Bool) : PyValue → Bool
  | .list items => everyItem p items
  | .dict entries => everyEntry p entries
  | v => p v

def everyItem (p : PyValue → Bool) : List PyValue → Bool
  | [] => true
  | v :: items => everyScalar p v && everyItem p items

def everyEntry (p : PyValue → Bool) : List (PyValue × PyValue) → Bool
  | [] => true
  | (k, v) :: entries => everyScalar p k && everyScalar p v && everyEntry p entries

end

theorem everyItem_eq (p : PyValue → Bool) (items : List PyValue) :
    everyItem p items = items.all (everyScalar p) := by
  induction items with
  | nil => rfl
  | cons v items ih => rw [everyItem, ih, List.all_cons]

theorem everyEntry_eq (p : PyValue → Bool) (d : PyDict) :
    everyEntry p d = d.all fun kv => everyScalar p kv.1 && everyScalar p kv.2 := by
  induction d with
  | nil => rfl
  | cons kv d ih => rw [everyEntry, ih, List.all_cons]

@[simp] theorem everyScalar_list (p : PyValue → Bool) (items : List PyValue) :
    everyScalar p (.list items) = items.all (everyScalar p) := by
  rw [everyScalar, everyItem_eq]

@[simp] theorem everyScalar_dict (p : PyValue → Bool) (d : PyDict) :
    everyScalar p (.dict d) = d.all fun kv => everyScalar p kv.1 && everyScalar p kv.2 := by
  rw [everyScalar, everyEntry_eq]

/-! ## Equal documents -/

/-- The same document: lists element by element, dicts up to their order. -/
inductive Same : PyValue → PyValue → Prop
  | refl (v : PyValue) : Same v v
  | list (items : List (PyValue × PyValue)) : (∀ i ∈ items, Same i.1 i.2) →
      Same (.list (items.map Prod.fst)) (.list (items.map Prod.snd))
  | dict {d : PyDict} (entries : List (PyValue × PyValue × PyValue)) :
      (∀ e ∈ entries, Same e.2.1 e.2.2) → d.Perm (entries.map fun e => (e.1, e.2.1)) →
      Same (.dict d) (.dict (entries.map fun e => (e.1, e.2.2)))

/-- A dict in another order. -/
theorem Same.of_perm {d e : PyDict} (h : d.Perm e) : Same (.dict d) (.dict e) := by
  have hfst : (e.map fun kv => (kv.1, kv.2, kv.2)).map (fun t => (t.1, t.2.1)) = e := by
    rw [List.map_map]
    exact List.map_id' e
  have hsnd : (e.map fun kv => (kv.1, kv.2, kv.2)).map (fun t => (t.1, t.2.2)) = e := by
    rw [List.map_map]
    exact List.map_id' e
  have hsame := Same.dict (d := d) (e.map fun kv => (kv.1, kv.2, kv.2)) (by
    intro t ht
    obtain ⟨kv, -, rfl⟩ := List.mem_map.mp ht
    exact .refl _) (by rwa [hfst])
  rwa [hsnd] at hsame

theorem Same.dict_inv {d e : PyDict} (h : Same (.dict d) (.dict e)) :
    ∃ entries : List (PyValue × PyValue × PyValue), (∀ t ∈ entries, Same t.2.1 t.2.2) ∧
      d.Perm (entries.map fun t => (t.1, t.2.1)) ∧ e = entries.map fun t => (t.1, t.2.2) := by
  cases h with
  | refl =>
    refine ⟨d.map fun kv => (kv.1, kv.2, kv.2), ?_, ?_, ?_⟩
    · intro t ht
      obtain ⟨kv, -, rfl⟩ := List.mem_map.mp ht
      exact .refl _
    · rw [List.map_map]
      exact (List.map_id' d).symm ▸ List.Perm.refl d
    · rw [List.map_map]
      exact (List.map_id' d).symm
  | dict entries hsame hperm => exact ⟨entries, hsame, hperm, rfl⟩

theorem Same.int {v : PyValue} {n : Int} (h : Same v (.int n)) : v = .int n := by
  cases h
  rfl

theorem Same.str {v : PyValue} {s : PyStr} (h : Same v (.str s)) : v = .str s := by
  cases h
  rfl

end PyValue
