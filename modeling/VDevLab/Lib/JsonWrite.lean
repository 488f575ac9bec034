import VDevLab.Lib.FloatRepr
import VDevLab.Lib.JsonDump

/-!
# `json.dumps` of a loaded value

`json.dumps(value, ensure_ascii=False, indent=2, sort_keys=True)` for whatever
`json.loads` can return, and when its text is JSON again. Three kinds of
scalars are in the way. An integer beyond the digit limit is not printed at
all; a float that is no number is printed as a word that RFC 8259 does not
have; a surrogate is printed as it is, and no encoding has it.

Keys that are not strings are left out: here a dict with such a key is not
printed.
-/

namespace Json

open PyStr PyValue

/-! ## Printing -/

/-- `str(n)` is within the digit limit. -/
def Admits (lim : IntLimit) (n : Int) : Bool :=
  lim.digits = 0 || (decimal n.natAbs).length ≤ lim.digits

/-- The text of a key. -/
def keyText : PyValue → Option PyStr
  | .str s => some s
  | _ => none

mutual

/-- The text of a value, unless `json.dumps` raises. -/
def dumpAt (lim : IntLimit) (level : Nat) : PyValue → Option PyStr
  | .none => some (py "null")
  | .bool b => some (if b then py "true" else py "false")
  | .int n => if Admits lim n then some (integer n) else none
  | .float x => some x.dump
  | .str s => some (JsonDoc.quote s)
  | .list items => (dumpItems lim (level + 1) items).map (JsonDoc.block level (ch '[') (ch ']'))
  | .dict entries =>
      (dumpEntries lim (level + 1) entries).map fun members =>
        JsonDoc.block level (ch '\x7b') (ch '\x7d')
          ((JsonDoc.sortMembers members).map fun m => JsonDoc.quote m.1 ++ py ": " ++ m.2)
  | .other _ => none

def dumpItems (lim : IntLimit) (level : Nat) : List PyValue → Option (List PyStr)
  | [] => some []
  | v :: items => do
      let text ← dumpAt lim level v
      let texts ← dumpItems lim level items
      return text :: texts

def dumpEntries (lim : IntLimit) (level : Nat) :
    List (PyValue × PyValue) → Option (List (PyStr × PyStr))
  | [] => some []
  | (k, v) :: entries => do
      let key ← keyText k
      let text ← dumpAt lim level v
      let members ← dumpEntries lim level entries
      return (key, text) :: members

end

/-- `json.dumps(value, ensure_ascii=False, indent=2, sort_keys=True)`. -/
def dumps (lim : IntLimit) (v : PyValue) : Option PyStr := dumpAt lim 0 v

example : dumps defaultIntLimit (.dict [(.str (py "b"), .list [.int (-1), .float .nan]),
      (.str (py "a"), .str (py "x\n"))]) =
    some (py "\x7b\n  \"a\": \"x\\n\",\n  \"b\": [\n    -1,\n    NaN\n  ]\n\x7d") := by
  decide +kernel

mutual

/-- A document without floats as a value. -/
def ofDoc : JsonDoc → PyValue
  | .null => .none
  | .bool b => .bool b
  | .int n => .int n
  | .str s => .str s
  | .list items => .list (ofItems items)
  | .object members => .dict (ofMembers members)

def ofItems : List JsonDoc → List PyValue
  | [] => []
  | item :: items => ofDoc item :: ofItems items

def ofMembers : List (PyStr × JsonDoc) → PyDict
  | [] => []
  | (key, value) :: members => (.str key, ofDoc value) :: ofMembers members

end

theorem ofDoc_list (items : List JsonDoc) : ofDoc (.list items) = .list (items.map ofDoc) := by
  have hitems : ofItems items = items.map ofDoc := by
    induction items with
    | nil => rfl
    | cons item items ih => rw [ofItems, ih, List.map_cons]
  rw [ofDoc, hitems]

theorem ofDoc_object (members : List (PyStr × JsonDoc)) :
    ofDoc (.object members) = .dict (members.map fun m => (.str m.1, ofDoc m.2)) := by
  have hmembers : ofMembers members = members.map fun m => (.str m.1, ofDoc m.2) := by
    induction members with
    | nil => rfl
    | cons m members ih => rw [ofMembers, ih, List.map_cons]
  rw [ofDoc, hmembers]

/-! ## How a text comes about -/

/-- A member of a printed object. -/
structure Row where
  key : PyStr
  value : PyValue
  text : PyStr

def Row.entry (r : Row) : PyValue × PyValue := (.str r.key, r.value)

def Row.print (r : Row) : PyStr := JsonDoc.quote r.key ++ py ": " ++ r.text

/-- The text of a value, with the members of an object in any order. -/
inductive Prints (lim : IntLimit) : Nat → PyValue → PyStr → Prop
  | none {level} : Prints lim level .none (py "null")
  | bool {level} (b : Bool) : Prints lim level (.bool b) (if b then py "true" else py "false")
  | int {level} {n : Int} : Admits lim n = true → Prints lim level (.int n) (integer n)
  | float {level} (x : Binary64) : Prints lim level (.float x) x.dump
  | str {level} (s : PyStr) : Prints lim level (.str s) (JsonDoc.quote s)
  | list {level} (rows : List (PyValue × PyStr)) :
      (∀ r ∈ rows, Prints lim (level + 1) r.1 r.2) →
      Prints lim level (.list (rows.map Prod.fst))
        (JsonDoc.block level (ch '[') (ch ']') (rows.map Prod.snd))
  | dict {level} {d : PyDict} (rows : List Row) : d.Keyed → d.Perm (rows.map Row.entry) →
      (∀ r ∈ rows, Prints lim (level + 1) r.value r.text) →
      Prints lim level (.dict d)
        (JsonDoc.block level (ch '\x7b') (ch '\x7d') (rows.map Row.print))

section Printed

variable {lim : IntLimit}

theorem dumpItems_eq_some {level : Nat} {items : List PyValue} {texts : List PyStr}
    (h : dumpItems lim level items = some texts) :
    ∃ rows : List (PyValue × PyStr), items = rows.map Prod.fst ∧ texts = rows.map Prod.snd ∧
      ∀ r ∈ rows, dumpAt lim level r.1 = some r.2 := by
  induction items generalizing texts with
  | nil =>
    cases h
    exact ⟨[], rfl, rfl, by simp⟩
  | cons v items ih =>
    simp only [dumpItems, Option.bind_eq_bind, Option.bind_eq_some_iff, Option.pure_def,
      Option.some.injEq] at h
    obtain ⟨text, htext, more, hmore, rfl⟩ := h
    obtain ⟨rows, rfl, rfl, hrows⟩ := ih hmore
    refine ⟨(v, text) :: rows, rfl, rfl, ?_⟩
    intro r hr
    rcases List.mem_cons.mp hr with rfl | hr
    · exact htext
    · exact hrows r hr

theorem dumpEntries_eq_some {level : Nat} {d : PyDict} {members : List (PyStr × PyStr)}
    (h : dumpEntries lim level d = some members) :
    ∃ rows : List Row, d = rows.map Row.entry ∧ members = rows.map (fun r => (r.key, r.text)) ∧
      ∀ r ∈ rows, dumpAt lim level r.value = some r.text := by
  induction d generalizing members with
  | nil =>
    cases h
    exact ⟨[], rfl, rfl, by simp⟩
  | cons kv d ih =>
    obtain ⟨k, v⟩ := kv
    simp only [dumpEntries, Option.bind_eq_bind, Option.bind_eq_some_iff, Option.pure_def,
      Option.some.injEq] at h
    obtain ⟨key, hkey, text, htext, more, hmore, rfl⟩ := h
    obtain ⟨rows, rfl, rfl, hrows⟩ := ih hmore
    have hk : k = .str key := by
      cases k with
      | str s => exact congrArg PyValue.str (Option.some.inj hkey)
      | _ => cases hkey
    subst hk
    refine ⟨⟨key, v, text⟩ :: rows, rfl, rfl, ?_⟩
    intro r hr
    rcases List.mem_cons.mp hr with rfl | hr
    · exact htext
    · exact hrows r hr

/-- Sorting the printed members sorts the rows. -/
theorem sortMembers_rows (rows : List Row) :
    ∃ sorted : List Row, sorted.Perm rows ∧
      JsonDoc.sortMembers (rows.map fun r => (r.key, r.text)) =
        sorted.map fun r => (r.key, r.text) := by
  refine ⟨rows.insertionSort (fun a b => a.key ≤ b.key), List.perm_insertionSort _ _, ?_⟩
  rw [JsonDoc.sortMembers, List.map_insertionSort (fun a b : Row => a.key ≤ b.key)
    (fun a b : PyStr × PyStr => a.1 ≤ b.1)]
  exact fun _ _ _ _ => Iff.rfl

theorem Prints.of_dumpAt {v : PyValue} (hv : Document v) {level : Nat} {t : PyStr}
    (h : dumpAt lim level v = some t) : Prints lim level v t := by
  induction hv generalizing level t with
  | none =>
    cases h
    exact .none
  | bool b =>
    cases h
    exact .bool b
  | int n =>
    simp only [dumpAt] at h
    split at h
    · next hn =>
      cases h
      exact .int hn
    · cases h
  | float x =>
    cases h
    exact .float x
  | str s =>
    cases h
    exact .str s
  | list _ ih =>
    obtain ⟨texts, htexts, rfl⟩ := Option.map_eq_some_iff.mp h
    obtain ⟨rows, rfl, rfl, hrows⟩ := dumpItems_eq_some htexts
    exact .list rows fun r hr => ih r.1 (List.mem_map_of_mem hr) (hrows r hr)
  | dict hkeyed _ ih =>
    obtain ⟨members, hmembers, rfl⟩ := Option.map_eq_some_iff.mp h
    obtain ⟨rows, rfl, rfl, hrows⟩ := dumpEntries_eq_some hmembers
    obtain ⟨sorted, hperm, hsorted⟩ := sortMembers_rows rows
    rw [hsorted, List.map_map]
    refine .dict sorted hkeyed (hperm.symm.map Row.entry) ?_
    intro r hr
    have hmem := hperm.mem_iff.mp hr
    exact ih r.entry (List.mem_map_of_mem hmem) (hrows r hmem)

/-! ## What keeps a value from being printed -/

/-- An integer has to be within the limit. -/
def intFits (lim : IntLimit) : PyValue → Bool
  | .int n => Admits lim n
  | _ => true

/-- A float has to be a number. -/
def floatFinite : PyValue → Bool
  | .float x => x.isFinite
  | _ => true

/-- A string has only certain characters. -/
def strAll (p : CodePoint → Bool) : PyValue → Bool
  | .str s => s.all p
  | _ => true

theorem all_congr_mem {α : Type} {l : List α} {p q : α → Bool} (h : ∀ a ∈ l, p a = q a) :
    l.all p = l.all q := by
  induction l with
  | nil => rfl
  | cons a l ih =>
    rw [List.all_cons, List.all_cons, h a List.mem_cons_self,
      ih fun b hb => h b (List.mem_cons_of_mem a hb)]

theorem all_entries {d : PyDict} {rows : List Row} (h : d.Perm (rows.map Row.entry))
    (p : PyValue → Bool) : (d.all fun kv => everyScalar p kv.1 && everyScalar p kv.2) =
      rows.all fun r => p (.str r.key) && everyScalar p r.value := by
  rw [h.all_eq, List.all_map]
  rfl

theorem Prints.intFits {level : Nat} {v : PyValue} {t : PyStr} (h : Prints lim level v t) :
    v.everyScalar (Json.intFits lim) = true := by
  induction h with
  | int hn => exact hn
  | list rows _ ih =>
    rw [everyScalar_list, List.all_map, List.all_eq_true]
    exact ih
  | dict rows _ hperm _ ih =>
    rw [everyScalar_dict, all_entries hperm, List.all_eq_true]
    intro r hr
    exact Bool.and_eq_true_iff.mpr ⟨rfl, ih r hr⟩
  | _ => rfl

theorem dumpItems_isSome {level : Nat} {items : List PyValue}
    (h : ∀ v ∈ items, ∃ t, dumpAt lim level v = some t) :
    ∃ texts, dumpItems lim level items = some texts := by
  induction items with
  | nil => exact ⟨[], rfl⟩
  | cons v items ih =>
    obtain ⟨t, ht⟩ := h v List.mem_cons_self
    obtain ⟨texts, htexts⟩ := ih fun w hw => h w (List.mem_cons_of_mem v hw)
    exact ⟨t :: texts, by simp [dumpItems, ht, htexts]⟩

theorem dumpEntries_isSome {level : Nat} {d : PyDict} (hkeys : ∀ kv ∈ d, ∃ k, kv.1 = .str k)
    (h : ∀ kv ∈ d, ∃ t, dumpAt lim level kv.2 = some t) :
    ∃ members, dumpEntries lim level d = some members := by
  induction d with
  | nil => exact ⟨[], rfl⟩
  | cons kv d ih =>
    obtain ⟨t, ht⟩ := h kv List.mem_cons_self
    obtain ⟨k, hk⟩ := hkeys kv List.mem_cons_self
    obtain ⟨members, hmembers⟩ := ih (fun w hw => hkeys w (List.mem_cons_of_mem kv hw))
      fun w hw => h w (List.mem_cons_of_mem kv hw)
    exact ⟨(k, t) :: members, by simp [dumpEntries, hk, keyText, ht, hmembers]⟩

/-- A document whose integers are within the limit is printed. -/
theorem dumpAt_isSome {v : PyValue} (hv : Document v)
    (hfits : v.everyScalar (Json.intFits lim) = true) (level : Nat) :
    ∃ t, dumpAt lim level v = some t := by
  induction hv generalizing level with
  | int n => exact ⟨_, if_pos hfits⟩
  | @list items _ ih =>
    rw [everyScalar_list, List.all_eq_true] at hfits
    obtain ⟨texts, htexts⟩ :=
      dumpItems_isSome (fun w hw => ih w hw (hfits w hw) (level + 1))
    exact ⟨_, by rw [dumpAt, htexts]; rfl⟩
  | @dict d hkeyed _ ih =>
    rw [everyScalar_dict, List.all_eq_true] at hfits
    obtain ⟨members, hmembers⟩ := dumpEntries_isSome hkeyed.strings
      fun kv hkv => ih kv hkv (Bool.and_eq_true_iff.mp (hfits kv hkv)).2 (level + 1)
    exact ⟨_, by rw [dumpAt, hmembers]; rfl⟩
  | _ => exact ⟨_, rfl⟩

/-- `json.dumps` of a document raises for over-long integers only. -/
theorem dumps_isSome_iff {v : PyValue} (hv : Document v) :
    (∃ t, dumps lim v = some t) ↔ v.everyScalar (Json.intFits lim) = true := by
  constructor
  · intro h
    obtain ⟨t, ht⟩ := h
    exact (Prints.of_dumpAt hv ht).intFits
  · intro hfits
    exact dumpAt_isSome hv hfits 0

end Printed

/-! ## The characters of a text -/

theorem integer_number {numeral : PyStr → Prop} {n : Int} (h : numeral (decimal n.natAbs)) :
    Number numeral (integer n) (.int n) := by
  have hnumber : ∀ neg, Number numeral (sign neg ++ decimal n.natAbs) _ :=
    fun neg => .integer (isNumeral_decimal _) h
  cases n with
  | ofNat n =>
    have hpos := hnumber false
    rwa [natOfDigits_decimal] at hpos
  | negSucc n =>
    have hneg := hnumber true
    rwa [natOfDigits_decimal] at hneg

/-- The characters of a number. -/
def isNumberChar (c : CodePoint) : Bool :=
  isDigit c || c == ch '-' || c == ch '+' || c == ch '.' || c == ch 'e' || c == ch 'E'

theorem all_numberChar {s : PyStr} (h : ∀ c ∈ s, isDigit c = true) :
    s.all isNumberChar = true := by
  rw [List.all_eq_true]
  intro c hc
  simp [isNumberChar, h c hc]

theorem Exponent.all {x : PyStr} {n : Int} (h : Exponent x n) : x.all isNumberChar = true := by
  have hletter : ∀ {e : CodePoint}, e = ch 'e' ∨ e = ch 'E' → isNumberChar e = true := by
    intro e he
    rcases he with rfl | rfl <;> decide
  cases h with
  | bare he hd => rw [List.all_cons, hletter he, all_numberChar hd.2, Bool.and_self]
  | plus he hd =>
    rw [List.all_cons, List.all_cons, hletter he, all_numberChar hd.2]
    decide
  | minus he hd =>
    rw [List.all_cons, List.all_cons, hletter he, all_numberChar hd.2]
    decide

theorem Number.all {numeral : PyStr → Prop} {t : PyStr} {v : PyValue} (h : Number numeral t v) :
    t.all isNumberChar = true := by
  have hsign : ∀ neg, (sign neg).all isNumberChar = true := by decide
  have hwhole : ∀ {whole : PyStr}, IsNumeral whole → whole.all isNumberChar = true :=
    fun h => all_numberChar (List.all_eq_true.mp h.2.1)
  have hpoint : isNumberChar (ch '.') = true := by decide
  cases h with
  | integer hw _ => rw [List.all_append, hsign, hwhole hw, Bool.and_self]
  | fraction hw hf => simp [hsign, hwhole hw, hpoint, all_numberChar hf.2]
  | exponent hw he => simp [hsign, hwhole hw, he.all]
  | both hw hf he => simp [hsign, hwhole hw, hpoint, all_numberChar hf.2, he.all]

section Characters

variable {p : CodePoint → Bool} (hp : ∀ c : CodePoint, c.val < 0x80 → p c = true)

include hp

theorem all_of_ascii {s : PyStr} (h : (s.all fun c => decide (c.val < 0x80)) = true) :
    s.all p = true := by
  rw [List.all_eq_true] at h ⊢
  exact fun c hc => hp c (of_decide_eq_true (h c hc))

theorem Number.all_ascii {numeral : PyStr → Prop} {t : PyStr} {v : PyValue}
    (h : Number numeral t v) : t.all p = true := by
  have hchar : ∀ c, isNumberChar c = true → c.val < 0x80 := by
    intro c hc
    simp only [isNumberChar, isDigit, Bool.or_eq_true, Bool.and_eq_true, decide_eq_true_eq,
      beq_iff_eq] at hc
    rcases hc with ((((hd | rfl) | rfl) | rfl) | rfl) | rfl
    · omega
    all_goals decide
  rw [List.all_eq_true]
  exact fun c hc => hp c (hchar c (List.all_eq_true.mp h.all c hc))

theorem dump_all (x : Binary64) : x.dump.all p = true := by
  by_cases hx : x.isFinite = true
  · exact (Binary64.dump_number (fun _ => True) hx).all_ascii hp
  · cases x with
    | nan => exact all_of_ascii hp (by decide)
    | inf neg => cases neg <;> exact all_of_ascii hp (by decide)
    | finite => exact absurd rfl hx

omit hp in
theorem layout_ascii {c : CodePoint} (h : JsonDoc.isLayout c = true) : c.val < 0x80 := by
  simp only [JsonDoc.isLayout, Bool.or_eq_true, Bool.and_eq_true, decide_eq_true_eq, beq_iff_eq] at h
  rcases h with h | rfl
  · omega
  · decide

/-- The characters of a printed string are its own, as far as `p` goes. -/
theorem quote_all (s : PyStr) : (JsonDoc.quote s).all p = s.all p := by
  rw [JsonDoc.quote_all fun c hc => hp c (layout_ascii hc)]
  congr 1
  funext c
  by_cases hc : c.val < 0x20
  · rw [JsonDoc.inString, decide_eq_true hc, Bool.true_or, hp c (by omega)]
  · rw [JsonDoc.inString, decide_eq_false hc, Bool.false_or]

theorem block_all (level : Nat) {opening closing : CodePoint}
    (ho : JsonDoc.isLayout opening = true) (hc : JsonDoc.isLayout closing = true)
    (texts : List PyStr) :
    (JsonDoc.block level opening closing texts).all p = texts.all (List.all · p) :=
  JsonDoc.block_all (fun c hc => hp c (layout_ascii hc)) level ho hc texts

/-- A text has the characters of its strings, and beyond them only ASCII. -/
theorem Prints.all {lim : IntLimit} {level : Nat} {v : PyValue} {t : PyStr}
    (h : Prints lim level v t) : t.all p = v.everyScalar (strAll p) := by
  induction h with
  | none => exact all_of_ascii hp (by decide)
  | bool b => cases b <;> exact all_of_ascii hp (by decide)
  | int _ => exact (@integer_number (fun _ => True) _ trivial).all_ascii hp
  | float x => exact dump_all hp x
  | str s => exact quote_all hp s
  | list rows _ ih =>
    rw [block_all hp _ (by decide) (by decide), everyScalar_list, List.all_map, List.all_map]
    exact all_congr_mem ih
  | dict rows _ hperm _ ih =>
    have hcolon : (py ": ").all p = true := all_of_ascii hp (by decide)
    rw [block_all hp _ (by decide) (by decide), everyScalar_dict, all_entries hperm, List.all_map]
    apply all_congr_mem
    intro r hr
    show (JsonDoc.quote r.key ++ py ": " ++ r.text).all p = _
    rw [List.all_append, List.all_append, quote_all hp, hcolon, Bool.and_true, ih r hr]
    rfl

end Characters

end Json
