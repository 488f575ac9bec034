import VDevLab.Lib.PyStr

/-!
# Printing JSON documents

`json.dumps(value, ensure_ascii=False, indent=2, sort_keys=True)` for values
without floats: objects are printed with their keys sorted by code points,
one member a line.
-/

/-- What is printed: dicts have string keys and keep their entries in
insertion order. -/
inductive JsonDoc
  | null
  | bool (b : Bool)
  | int (n : Int)
  | str (s : PyStr)
  | list (items : List JsonDoc)
  | object (members : List (PyStr × JsonDoc))

namespace JsonDoc

open PyStr

/-! ## Scalars -/

/-- A hexadecimal digit in lower case. -/
def hexDigit (d : Nat) : CodePoint := if d < 10 then digit d else Fin.ofNat _ (0x57 + d)

/-- The escape of a code point inside a string; only the quote, the backslash
and the controls below the blank are escaped. -/
def escape (c : CodePoint) : PyStr :=
  if c = ch '"' then py "\\\""
  else if c = ch '\\' then py "\\\\"
  else if c = ch '\n' then py "\\n"
  else if c = ch '\r' then py "\\r"
  else if c = ch '\t' then py "\\t"
  else if c.val = 0x0c then py "\\f"
  else if c.val = 0x08 then py "\\b"
  else if c.val < 0x20 then py "\\u00" ++ [hexDigit (c.val / 16), hexDigit (c.val % 16)]
  else [c]

def quote (s : PyStr) : PyStr := ch '"' :: s.flatMap escape ++ [ch '"']

/-! ## Layout -/

/-- A line break and the indentation of the level. -/
def newline (level : Nat) : PyStr := ch '\n' :: List.replicate (2 * level) (ch ' ')

/-- The items of a list or an object between its brackets. -/
def block (level : Nat) (opening closing : CodePoint) : List PyStr → PyStr
  | [] => [opening, closing]
  | item :: items =>
      opening :: newline (level + 1) ++ item
        ++ items.flatMap (fun item => ch ',' :: newline (level + 1) ++ item)
        ++ newline level ++ [closing]

/-- `sort_keys`: by the key, in code point order. -/
def sortMembers (members : List (PyStr × PyStr)) : List (PyStr × PyStr) :=
  members.insertionSort fun a b => a.1 ≤ b.1

mutual

def dumpAt (level : Nat) : JsonDoc → PyStr
  | .null => py "null"
  | .bool b => if b then py "true" else py "false"
  | .int n => integer n
  | .str s => quote s
  | .list items => block level (ch '[') (ch ']') (dumpItems (level + 1) items)
  | .object members =>
      block level (ch '\x7b') (ch '\x7d')
        ((sortMembers (dumpMembers (level + 1) members)).map fun m => quote m.1 ++ py ": " ++ m.2)

def dumpItems (level : Nat) : List JsonDoc → List PyStr
  | [] => []
  | item :: items => dumpAt level item :: dumpItems level items

def dumpMembers (level : Nat) : List (PyStr × JsonDoc) → List (PyStr × PyStr)
  | [] => []
  | (key, value) :: members => (key, dumpAt level value) :: dumpMembers level members

end

/-- `json.dumps(value, ensure_ascii=False, indent=2, sort_keys=True)`. -/
def dumps (doc : JsonDoc) : PyStr := dumpAt 0 doc

example : dumps (.object [(py "b", .list [.int (-1), .null]), (py "a", .str (py "x\n"))]) =
    py "\x7b\n  \"a\": \"x\\n\",\n  \"b\": [\n    -1,\n    null\n  ]\n\x7d" := by decide +kernel

/-! ## The characters of a document -/

mutual

/-- Whether `p` holds of every character of the strings and keys. -/
def everyChar (p : CodePoint → Bool) : JsonDoc → Bool
  | .null => true
  | .bool _ => true
  | .int _ => true
  | .str s => s.all p
  | .list items => everyItem p items
  | .object members => everyMember p members

def everyItem (p : CodePoint → Bool) : List JsonDoc → Bool
  | [] => true
  | item :: items => item.everyChar p && everyItem p items

def everyMember (p : CodePoint → Bool) : List (PyStr × JsonDoc) → Bool
  | [] => true
  | (key, value) :: members => key.all p && value.everyChar p && everyMember p members

end

theorem everyItem_eq {p : CodePoint → Bool} (items : List JsonDoc) :
    everyItem p items = items.all (·.everyChar p) := by
  induction items with
  | nil => rfl
  | cons item items ih => rw [everyItem, List.all_cons, ih]

mutual

theorem everyChar_true : ∀ doc : JsonDoc, doc.everyChar (fun _ => true) = true
  | .null => rfl
  | .bool _ => rfl
  | .int _ => rfl
  | .str s => by simp [everyChar]
  | .list items => by rw [everyChar, everyItem_true items]
  | .object members => by rw [everyChar, everyMember_true members]

theorem everyItem_true : ∀ items : List JsonDoc, everyItem (fun _ => true) items = true
  | [] => rfl
  | item :: items => by rw [everyItem, everyChar_true item, everyItem_true items]; rfl

theorem everyMember_true : ∀ members : List (PyStr × JsonDoc),
    everyMember (fun _ => true) members = true
  | [] => rfl
  | (key, value) :: members => by
    rw [everyMember, everyChar_true value, everyMember_true members]
    simp

end

/-- What a document is made of beside its strings: printable ASCII and line
feeds. -/
def isLayout (c : CodePoint) : Bool := (0x20 ≤ c.val && c.val < 0x7f) || c == ch '\n'

/-- What `p` asks of a character in a string, where the controls are escaped. -/
def inString (p : CodePoint → Bool) (c : CodePoint) : Bool := decide (c.val < 0x20) || p c

section Characters

set_option linter.unusedSectionVars false

variable {p : CodePoint → Bool} (hp : ∀ c, isLayout c = true → p c = true)

include hp

theorem all_layout {s : PyStr} (h : s.all isLayout = true) : s.all p = true := by
  rw [List.all_eq_true] at h ⊢
  exact fun c hc => hp c (h c hc)

/-- The characters below the blank are escaped. -/
theorem escape_all (c : CodePoint) : (escape c).all p = inString p c := by
  have hhex : ∀ d < 16, isLayout (hexDigit d) = true := by decide
  have hlow : ∀ {w : PyStr}, w.all isLayout = true → c.val < 0x20 →
      w.all p = inString p c := by
    intro w hw hc
    rw [all_layout hp hw, inString, decide_eq_true hc, Bool.true_or]
  unfold escape
  split
  · next h =>
    rw [all_layout hp (by decide), h, inString, hp (ch '"') (by decide), Bool.or_true]
  · split
    · next h =>
      rw [all_layout hp (by decide), h, inString, hp (ch '\\') (by decide), Bool.or_true]
    · split
      · next h => exact hlow (by decide) (h ▸ by decide)
      · split
        · next h => exact hlow (by decide) (h ▸ by decide)
        · split
          · next h => exact hlow (by decide) (h ▸ by decide)
          · split
            · next h => exact hlow (by decide) (by omega)
            · split
              · next h => exact hlow (by decide) (by omega)
              · split
                · next h =>
                  refine hlow ?_ h
                  rw [List.all_append, List.all_cons, List.all_cons, hhex _ (by omega),
                    hhex _ (by omega)]
                  decide
                · next h => simp [inString, h]

theorem quote_all (s : PyStr) :
    (quote s).all p = s.all (inString p) := by
  have hquote : p (ch '"') = true := hp _ (by decide)
  have hbody : (s.flatMap escape).all p = s.all (inString p) := by
    rw [List.all_flatMap]
    exact List.all_congr rfl (escape_all hp)
  simp [quote, hquote, hbody]

theorem newline_all (level : Nat) : (newline level).all p = true := by
  rw [newline, List.all_cons, hp _ (by decide), Bool.true_and, List.all_eq_true]
  intro c hc
  rw [List.eq_of_mem_replicate hc, hp _ (by decide)]

theorem block_all (level : Nat) {opening closing : CodePoint} (ho : isLayout opening = true)
    (hc : isLayout closing = true) (texts : List PyStr) :
    (block level opening closing texts).all p = texts.all (List.all · p) := by
  cases texts with
  | nil => simp [block, hp _ ho, hp _ hc]
  | cons text texts =>
    have hcomma : p (ch ',') = true := hp _ (by decide)
    simp [block, hp _ ho, hp _ hc, hcomma, newline_all hp, List.all_flatMap]

theorem decimal_all (n : Nat) : (decimal n).all p = true := by
  rw [List.all_eq_true]
  intro c hc
  have hdigit := List.all_eq_true.mp (isNumeral_decimal n).2.1 c hc
  simp only [isDigit, Bool.and_eq_true, decide_eq_true_eq] at hdigit
  refine hp c ?_
  simp only [isLayout, Bool.or_eq_true, Bool.and_eq_true, decide_eq_true_eq]
  omega

theorem integer_all (n : Int) : (integer n).all p = true := by
  cases n with
  | ofNat k => exact decimal_all hp k
  | negSucc k => rw [integer, List.all_cons, hp _ (by decide), decimal_all hp, Bool.true_and]

mutual

/-- A document has the characters of its strings that are not escaped, and
beyond them only its layout. -/
theorem dumpAt_all : ∀ (doc : JsonDoc) (level : Nat), (dumpAt level doc).all p =
    doc.everyChar (inString p)
  | .null, level => by
    rw [dumpAt, all_layout hp (by decide), everyChar]
  | .bool b, level => by
    cases b <;> rw [dumpAt, all_layout hp (by decide), everyChar]
  | .int n, level => integer_all hp n
  | .str s, level => quote_all hp s
  | .list items, level => by
    rw [dumpAt, block_all hp _ (by decide) (by decide), dumpItems_all items, everyChar]
  | .object members, level => by
    have hcolon : (py ": ").all p = true := all_layout hp (by decide)
    have hmember : ∀ m : PyStr × PyStr, (quote m.1 ++ py ": " ++ m.2).all p =
        ((quote m.1).all p && m.2.all p) := by
      intro m
      rw [List.all_append, List.all_append, hcolon, Bool.and_true]
    rw [dumpAt, block_all hp _ (by decide) (by decide), everyChar, ← dumpMembers_all members (level + 1),
      List.all_map, sortMembers, (List.perm_insertionSort _ _).all_eq]
    exact List.all_congr rfl hmember

theorem dumpItems_all : ∀ (items : List JsonDoc) (level : Nat),
    (dumpItems level items).all (List.all · p) =
      everyItem (inString p) items
  | [], level => rfl
  | item :: items, level => by
    rw [dumpItems, List.all_cons, dumpAt_all item, dumpItems_all items, everyItem]

theorem dumpMembers_all : ∀ (members : List (PyStr × JsonDoc)) (level : Nat),
    ((dumpMembers level members).all fun m => (quote m.1).all p && m.2.all p) =
      everyMember (inString p) members
  | [], level => rfl
  | (key, value) :: members, level => by
    rw [dumpMembers, List.all_cons, quote_all hp, dumpAt_all value, dumpMembers_all members,
      everyMember]

end

theorem dumps_all (doc : JsonDoc) : (dumps doc).all p =
    doc.everyChar (inString p) :=
  dumpAt_all hp doc 0

end Characters

end JsonDoc
