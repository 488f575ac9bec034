import VDevLab.Lib.Binary64

/-!
# Python values

The values that documents in YAML or JSON load to. A dict keeps its entries
in insertion order; keys may be any value. `other` stands for the objects a
YAML loader can build beyond these (dates, bytes, sets, tuples): programs
that only test for the types below treat them all alike.
-/

inductive PyValue
  | none
  | bool (b : Bool)
  | int (n : Int)
  | float (x : Binary64)
  | str (s : PyStr)
  | list (items : List PyValue)
  | dict (entries : List (PyValue × PyValue))
  | other (tag : Nat)

/-- The entries of a dict. -/
abbrev PyDict := List (PyValue × PyValue)

namespace PyValue

def isStr : PyValue → Bool
  | .str _ => true
  | _ => false

/-- `value == "text"`. -/
def eqStr (v : PyValue) (s : PyStr) : Bool :=
  match v with
  | .str t => t = s
  | _ => false

@[simp] theorem eqStr_iff {v : PyValue} {s : PyStr} : v.eqStr s = true ↔ v = .str s := by
  cases v <;> simp [eqStr]

@[simp] theorem isStr_iff {v : PyValue} : v.isStr = true ↔ ∃ s, v = .str s := by
  cases v <;> simp [isStr]

end PyValue

namespace PyDict

/-- `d.get(key)` for a string key; `none` when it is absent. -/
def get? : PyDict → PyStr → Option PyValue
  | [], _ => none
  | (k, v) :: d, key => if k.eqStr key then some v else get? d key

/-- `d[key] = v`: an existing key keeps its place. -/
def insert : PyDict → PyStr → PyValue → PyDict
  | [], key, v => [(.str key, v)]
  | (k, w) :: d, key, v => if k.eqStr key then (k, v) :: d else (k, w) :: insert d key v

/-- A dict display with literal keys. -/
def ofList (l : List (String × PyValue)) : PyDict := l.map fun (k, v) => (.str (py k), v)

/-- The string keys, in order. -/
def strKeys (d : PyDict) : List PyStr :=
  d.filterMap fun
    | (.str k, _) => some k
    | _ => none

theorem mem_strKeys {d : PyDict} {key : PyStr} : key ∈ d.strKeys ↔ ∃ v, (.str key, v) ∈ d := by
  simp only [strKeys, List.mem_filterMap, Prod.exists]
  constructor
  · intro h
    obtain ⟨k, v, hm, hk⟩ := h
    cases k with
    | str s => cases hk; exact ⟨v, hm⟩
    | _ => cases hk
  · intro h
    obtain ⟨v, hm⟩ := h
    exact ⟨.str key, v, hm, rfl⟩

theorem get?_isSome {d : PyDict} {key : PyStr} :
    (d.get? key).isSome = true ↔ key ∈ d.strKeys := by
  rw [mem_strKeys]
  induction d with
  | nil => simp [get?]
  | cons kv d ih =>
    obtain ⟨k, v⟩ := kv
    by_cases hk : k.eqStr key = true
    · simp only [get?, hk, if_true, Option.isSome_some, true_iff]
      exact ⟨v, by rw [PyValue.eqStr_iff.mp hk]; exact List.mem_cons_self⟩
    · simp only [get?, hk, Bool.false_eq_true, if_false, ih, List.mem_cons, Prod.mk.injEq]
      constructor
      · intro h
        obtain ⟨w, hw⟩ := h
        exact ⟨w, .inr hw⟩
      · intro h
        obtain ⟨w, ⟨rfl, -⟩ | hw⟩ := h
        · simp at hk
        · exact ⟨w, hw⟩

end PyDict
