import VDevLab.Lib.JsonText
import VDevLab.Lib.PyEq

/-!
# The grammar of RFC 8259

Which texts are JSON, and the value each of them stands for: blanks wherever
the grammar allows them, every escape, every form of a number. A number with
neither fraction nor exponent is an integer, any other is the nearest double;
of two members with one name the last counts. The grammar knows nothing of a
scanner. That `json.loads` reads every text of it as its value is the result
at the end, with one way out: an integer numeral that exceeds the digit limit.
-/

namespace Json

open PyStr

/-! ## Texts -/

/-- `ws`. -/
def Ws (s : PyStr) : Prop := ∀ c ∈ s, isWs c = true

/-- `1*DIGIT`. -/
def Digits (s : PyStr) : Prop := s ≠ [] ∧ ∀ c ∈ s, isDigit c = true

/-- `4HEXDIG` and its value. -/
def Hex (s : PyStr) (u : Nat) : Prop := hex4 s = some (u, [])

def IsHigh (u : Nat) : Prop := 0xD800 ≤ u ∧ u ≤ 0xDBFF

def IsLow (u : Nat) : Prop := 0xDC00 ≤ u ∧ u ≤ 0xDFFF

/-- The characters between the quotes and the string they stand for. Two
escapes in a row that are a surrogate pair are one character. -/
inductive Chars : PyStr → PyStr → Prop
  | nil : Chars [] []
  | raw {c t s} : Plain c → Chars t s → Chars (c :: t) (c :: s)
  | simple {e c t s} : simpleEscape e = some c → Chars t s → Chars (ch '\\' :: e :: t) (c :: s)
  | unit {h u t s} : Hex h u → (IsHigh u → lowEscape t = none) → Chars t s →
      Chars (ch '\\' :: ch 'u' :: (h ++ t)) (Fin.ofNat _ u :: s)
  | pair {h u k l t s} : Hex h u → IsHigh u → Hex k l → IsLow l → Chars t s →
      Chars (ch '\\' :: ch 'u' :: (h ++ ch '\\' :: ch 'u' :: (k ++ t)))
        (Fin.ofNat _ (0x10000 + (u - 0xD800) * 1024 + (l - 0xDC00)) :: s)

/-- `exp` and its value. -/
inductive Exponent : PyStr → Int → Prop
  | bare {e d} : e = ch 'e' ∨ e = ch 'E' → Digits d → Exponent (e :: d) (natOfDigits d)
  | plus {e d} : e = ch 'e' ∨ e = ch 'E' → Digits d → Exponent (e :: ch '+' :: d) (natOfDigits d)
  | minus {e d} : e = ch 'e' ∨ e = ch 'E' → Digits d →
      Exponent (e :: ch '-' :: d) (-natOfDigits d)

/-- `[ minus ]`. -/
def sign (neg : Bool) : PyStr := if neg then [ch '-'] else []

/-- `number`, where `numeral` says which integers are admitted. -/
inductive Number (numeral : PyStr → Prop) : PyStr → PyValue → Prop
  | integer {neg whole} : IsNumeral whole → numeral whole →
      Number numeral (sign neg ++ whole)
        (.int (if neg then -(natOfDigits whole : Int) else natOfDigits whole))
  | fraction {neg whole frac} : IsNumeral whole → Digits frac →
      Number numeral (sign neg ++ (whole ++ ch '.' :: frac))
        (.float (.ofDecimal neg (natOfDigits (whole ++ frac)) (-frac.length)))
  | exponent {neg whole e n} : IsNumeral whole → Exponent e n →
      Number numeral (sign neg ++ (whole ++ e)) (.float (.ofDecimal neg (natOfDigits whole) n))
  | both {neg whole frac e n} : IsNumeral whole → Digits frac → Exponent e n →
      Number numeral (sign neg ++ (whole ++ ch '.' :: (frac ++ e)))
        (.float (.ofDecimal neg (natOfDigits (whole ++ frac)) (n - frac.length)))

/-- An element of an array with the blanks around it. -/
structure Item where
  before : PyStr
  text : PyStr
  after : PyStr
  value : PyValue

def Item.Spaced (i : Item) : Prop := Ws i.before ∧ Ws i.after

def Item.print (i : Item) : PyStr := i.before ++ (i.text ++ i.after)

/-- A member of an object: the text of its name and the name, then the colon
between blanks and the value like an element. -/
structure Pair extends Item where
  lead : PyStr
  nameText : PyStr
  name : PyStr
  gap : PyStr

def Pair.Spaced (p : Pair) : Prop := Ws p.lead ∧ Ws p.gap ∧ p.toItem.Spaced

def Pair.print (p : Pair) : PyStr :=
  p.lead ++ ch '"' :: (p.nameText ++ ch '"' :: (p.gap ++ ch ':' :: p.toItem.print))

/-- The dict of the members. -/
def pairsDict (d : PyDict) (pairs : List Pair) : PyDict :=
  pairs.foldl (fun d p => d.insert p.name p.value) d

/-- What is between the brackets. -/
def listed (prints : List PyStr) : PyStr := join [ch ','] prints

/-- `value`. -/
inductive Value (numeral : PyStr → Prop) : PyStr → PyValue → Prop
  | null : Value numeral (py "null") .none
  | true : Value numeral (py "true") (.bool true)
  | false : Value numeral (py "false") (.bool false)
  | number {t v} : Number numeral t v → Value numeral t v
  | string {t s} : Chars t s → Value numeral (ch '"' :: (t ++ [ch '"'])) (.str s)
  | emptyArray {w} : Ws w → Value numeral (ch '[' :: (w ++ [ch ']'])) (.list [])
  | array {items : List Item} : items ≠ [] → (∀ i ∈ items, i.Spaced) →
      (∀ i ∈ items, Value numeral i.text i.value) →
      Value numeral (ch '[' :: (listed (items.map Item.print) ++ [ch ']']))
        (.list (items.map Item.value))
  | emptyObject {w} : Ws w → Value numeral (ch '\x7b' :: (w ++ [ch '\x7d'])) (.dict [])
  | object {pairs : List Pair} : pairs ≠ [] → (∀ p ∈ pairs, p.Spaced) →
      (∀ p ∈ pairs, Chars p.nameText p.name) →
      (∀ p ∈ pairs, Value numeral p.text p.value) →
      Value numeral (ch '\x7b' :: (listed (pairs.map Pair.print) ++ [ch '\x7d']))
        (.dict (pairsDict [] pairs))

/-- `JSON-text`: a value between blanks. -/
def Text (numeral : PyStr → Prop) (s : PyStr) (v : PyValue) : Prop :=
  ∃ before t after, Ws before ∧ Value numeral t v ∧ Ws after ∧ s = before ++ (t ++ after)

/-- The grammar itself admits every integer. -/
abbrev Rfc8259 : PyStr → PyValue → Prop := Text fun _ => True

/-- The integers that `int` reads. -/
def Fits (lim : IntLimit) (whole : PyStr) : Prop := lim.digits = 0 ∨ whole.length ≤ lim.digits

/-- Characters that stand for themselves. -/
theorem chars_plain {t : PyStr} (h : ∀ c ∈ t, Plain c) : Chars t t := by
  induction t with
  | nil => exact .nil
  | cons c t ih =>
    exact .raw (h c List.mem_cons_self) (ih fun d hd => h d (List.mem_cons_of_mem c hd))

/-! ## Strings are read -/

theorem Hex.hex4 {h : PyStr} {u : Nat} (hx : Hex h u) (rest : PyStr) :
    hex4 (h ++ rest) = some (u, rest) := by
  unfold Hex at hx
  match h with
  | [] | [_] | [_, _] | [_, _, _] => cases hx
  | a :: b :: c :: d :: more =>
    simp only [Json.hex4, Option.bind_eq_bind, Option.bind_eq_some_iff, Option.pure_def,
      Option.some.injEq, Prod.mk.injEq] at hx
    obtain ⟨a', ha, b', hb, c', hc, d', hd, rfl, rfl⟩ := hx
    simp [Json.hex4, ha, hb, hc, hd]

theorem Hex.length {h : PyStr} {u : Nat} (hx : Hex h u) : h.length = 4 := by
  unfold Hex at hx
  match h with
  | [] | [_] | [_, _] | [_, _, _] => cases hx
  | a :: b :: c :: d :: more =>
    simp only [Json.hex4, Option.bind_eq_bind, Option.bind_eq_some_iff, Option.pure_def,
      Option.some.injEq, Prod.mk.injEq] at hx
    obtain ⟨_, _, _, _, _, _, _, _, _, rfl⟩ := hx
    rfl

theorem lowEscape_hex {h : PyStr} {u : Nat} (hx : Hex h u) (rest : PyStr) :
    lowEscape (ch '\\' :: ch 'u' :: (h ++ rest)) =
      if 0xDC00 ≤ u ∧ u ≤ 0xDFFF then some (u, rest) else none := by
  rw [lowEscape, if_pos ⟨rfl, rfl⟩, hx.hex4]
  simp [Option.filter]

theorem lowEscape_of_ne {c : CodePoint} (hc : c ≠ ch '\\') (rest : PyStr) :
    lowEscape (c :: rest) = none := by
  cases rest <;> simp [lowEscape, hc]

/-- What follows the string does not complete a surrogate pair. -/
theorem Chars.lowEscape {t s : PyStr} (h : Chars t s) (hnone : lowEscape t = none)
    (rest : PyStr) : Json.lowEscape (t ++ ch '"' :: rest) = none := by
  cases h with
  | nil => exact lowEscape_of_ne (by decide) rest
  | raw hc _ => exact lowEscape_of_ne hc.2.1 _
  | @simple e c t s he _ =>
    have hu : e ≠ ch 'u' := by
      rintro rfl
      cases he.symm.trans (show simpleEscape (ch 'u') = none by decide)
    simp [Json.lowEscape, hu]
  | unit hx _ _ =>
    rw [lowEscape_hex hx] at hnone
    rw [List.cons_append, List.cons_append, List.append_assoc, lowEscape_hex hx]
    split at hnone
    · cases hnone
    · next hlow => rw [if_neg hlow]
  | pair hx hhigh _ _ _ =>
    rw [List.cons_append, List.cons_append, List.append_assoc, lowEscape_hex hx,
      if_neg (by have := hhigh.2; omega)]

theorem escape_simple {e c : CodePoint} (he : simpleEscape e = some c) (rest : PyStr) :
    escape (e :: rest) = some (c, rest) := by
  have hu : e ≠ ch 'u' := by
    rintro rfl
    cases he.symm.trans (show simpleEscape (ch 'u') = none by decide)
  rw [escape, if_neg hu, he]
  rfl

theorem escape_unit {h : PyStr} {u : Nat} (hx : Hex h u) {rest : PyStr}
    (hnone : IsHigh u → lowEscape rest = none) :
    escape (ch 'u' :: (h ++ rest)) = some (Fin.ofNat _ u, rest) := by
  rw [escape, if_pos rfl, hx.hex4]
  simp only
  split
  · next hhigh => rw [hnone hhigh]
  · rfl

theorem escape_pair {h k : PyStr} {u l : Nat} (hx : Hex h u) (hhigh : IsHigh u) (hk : Hex k l)
    (hlow : IsLow l) (rest : PyStr) :
    escape (ch 'u' :: (h ++ ch '\\' :: ch 'u' :: (k ++ rest))) =
      some (Fin.ofNat _ (0x10000 + (u - 0xD800) * 1024 + (l - 0xDC00)), rest) := by
  rw [escape, if_pos rfl, hx.hex4]
  simp only
  rw [if_pos ⟨hhigh.1, hhigh.2⟩, lowEscape_hex hk, if_pos ⟨hlow.1, hlow.2⟩]

/-- One step of the scanner at a backslash. -/
theorem scanString_escape {d : CodePoint} {fuel : Nat} {s rest : PyStr}
    (h : escape s = some (d, rest)) :
    scanString (fuel + 1) (ch '\\' :: s) =
      (scanString fuel rest).map fun p => (d :: p.1, p.2) := by
  rw [scanString, if_neg (by decide), if_pos rfl, h]

theorem Chars.scanString {t s : PyStr} (h : Chars t s) (rest : PyStr) {fuel : Nat}
    (hfuel : t.length < fuel) : scanString fuel (t ++ ch '"' :: rest) = .ok (s, rest) := by
  induction h generalizing fuel with
  | nil =>
    obtain ⟨fuel, rfl⟩ : ∃ f, fuel = f + 1 := ⟨fuel - 1, by simp at hfuel; omega⟩
    rw [List.nil_append, Json.scanString, if_pos rfl]
  | raw hc _ ih =>
    obtain ⟨fuel, rfl⟩ : ∃ f, fuel = f + 1 := ⟨fuel - 1, by simp at hfuel; omega⟩
    obtain ⟨hquote, hslash, hctl⟩ := hc
    rw [List.cons_append, Json.scanString, if_neg hquote, if_neg hslash, if_neg (by omega),
      ih (by simp at hfuel; omega)]
    rfl
  | simple he _ ih =>
    obtain ⟨fuel, rfl⟩ : ∃ f, fuel = f + 1 := ⟨fuel - 1, by simp at hfuel; omega⟩
    rw [List.cons_append, List.cons_append, scanString_escape (escape_simple he _),
      ih (by simp at hfuel; omega)]
    rfl
  | unit hx hnone ht ih =>
    obtain ⟨fuel, rfl⟩ : ∃ f, fuel = f + 1 := ⟨fuel - 1, by simp at hfuel; omega⟩
    have hescape := escape_unit hx (fun hhigh => ht.lowEscape (hnone hhigh) rest)
    rw [List.cons_append, List.cons_append, List.append_assoc, scanString_escape hescape,
      ih (by simp [hx.length] at hfuel; omega)]
    rfl
  | pair hx hhigh hk hlow _ ih =>
    obtain ⟨fuel, rfl⟩ : ∃ f, fuel = f + 1 := ⟨fuel - 1, by simp at hfuel; omega⟩
    simp only [List.cons_append, List.append_assoc]
    rw [scanString_escape (escape_pair hx hhigh hk hlow _),
      ih (by simp [hx.length, hk.length] at hfuel; omega)]
    rfl

theorem Chars.scans {t s : PyStr} (h : Chars t s) (lim : IntLimit) :
    Scans lim (ch '"' :: (t ++ [ch '"'])) (.str s) := by
  intro rest fuel _ hfuel
  obtain ⟨fuel, rfl⟩ : ∃ f, fuel = f + 1 := ⟨fuel - 1, by simp at hfuel; omega⟩
  rw [List.cons_append, List.append_assoc, List.singleton_append, scanOnce, if_pos rfl,
    h.scanString rest (by simp)]
  rfl

/-! ## Numbers are read

`Reads` leaves the way out for a numeral that is too long, when `excess` holds. -/

/-- The scanner reads `t` as `v`, or stops at an over-long integer. -/
def Reads (lim : IntLimit) (excess : Prop) (t : PyStr) (v : PyValue) : Prop :=
  ∀ rest fuel, Ends rest → t.length ≤ fuel →
    scanOnce lim fuel (t ++ rest) = .ok (v, rest) ∨
      excess ∧ scanOnce lim fuel (t ++ rest) = .error .value

theorem Scans.reads {lim : IntLimit} {excess : Prop} {t : PyStr} {v : PyValue} (h : Scans lim t v) :
    Reads lim excess t v :=
  fun rest fuel hrest hfuel => .inl (h rest fuel hrest hfuel)

theorem Digits.takeWhile {s rest : PyStr} (h : Digits s)
    (hrest : rest.takeWhile isDigit = [] ∧ rest.dropWhile isDigit = rest) :
    (s ++ rest).takeWhile isDigit = s ∧ (s ++ rest).dropWhile isDigit = rest :=
  takeWhile_digits h.2 hrest

theorem not_digit_cons {c : CodePoint} (hc : isDigit c = false) (rest : PyStr) :
    (c :: rest).takeWhile isDigit = [] ∧ (c :: rest).dropWhile isDigit = c :: rest := by
  simp [hc]

theorem Exponent.head {x : PyStr} {n : Int} (h : Exponent x n) :
    ∃ e t, x = e :: t ∧ (e = ch 'e' ∨ e = ch 'E') := by
  cases h with
  | bare he _ => exact ⟨_, _, rfl, he⟩
  | plus he _ => exact ⟨_, _, rfl, he⟩
  | minus he _ => exact ⟨_, _, rfl, he⟩

theorem Exponent.not_digit {x : PyStr} {n : Int} (h : Exponent x n) (rest : PyStr) :
    (x ++ rest).takeWhile isDigit = [] ∧ (x ++ rest).dropWhile isDigit = x ++ rest := by
  obtain ⟨e, t, rfl, he⟩ := h.head
  have hdigit : isDigit e = false := by rcases he with rfl | rfl <;> decide
  exact not_digit_cons hdigit _

theorem Exponent.scanFraction {x : PyStr} {n : Int} (h : Exponent x n) (rest : PyStr) :
    scanFraction (x ++ rest) = none := by
  obtain ⟨e, t, rfl, he⟩ := h.head
  have hpoint : e ≠ ch '.' := by rcases he with rfl | rfl <;> decide
  simp [Json.scanFraction, hpoint]

theorem Exponent.scanExponent {x : PyStr} {n : Int} (h : Exponent x n) {rest : PyStr}
    (hrest : Ends rest) : scanExponent (x ++ rest) = some (n, rest) := by
  cases h with
  | @bare e d he hd =>
    obtain ⟨htake, hdrop⟩ := hd.takeWhile hrest.not_digit
    obtain ⟨c, t, hct⟩ := List.exists_cons_of_ne_nil hd.1
    have hc : isDigit c = true := hd.2 c (by simp [hct])
    have hminus : c ≠ ch '-' := (isDigit_ne hc (by decide)).symm
    have hplus : c ≠ ch '+' := (isDigit_ne hc (by decide)).symm
    rw [hct] at htake hdrop
    simp only [List.cons_append] at htake hdrop
    simp [Json.scanExponent, hct, hminus, hplus, htake, hdrop, he]
  | plus he hd =>
    obtain ⟨htake, hdrop⟩ := hd.takeWhile hrest.not_digit
    have hsign : ch '+' ≠ ch '-' := by decide
    simp [Json.scanExponent, hsign, htake, hdrop, he, hd.1]
  | minus he hd =>
    obtain ⟨htake, hdrop⟩ := hd.takeWhile hrest.not_digit
    simp [Json.scanExponent, htake, hdrop, he, hd.1]

theorem scanFraction_digits {frac rest : PyStr} (h : Digits frac)
    (hrest : rest.takeWhile isDigit = [] ∧ rest.dropWhile isDigit = rest) :
    scanFraction (ch '.' :: (frac ++ rest)) = some (frac, rest) := by
  obtain ⟨htake, hdrop⟩ := h.takeWhile hrest
  simp [scanFraction, htake, hdrop, h.1]

/-- The number scanner behind the sign. -/
theorem scanOnce_sign (lim : IntLimit) (neg : Bool) {whole : PyStr} (h : IsNumeral whole)
    (rest : PyStr) (fuel : Nat) :
    scanOnce lim (fuel + 1) (sign neg ++ (whole ++ rest)) = scanUnsigned lim neg (whole ++ rest) := by
  obtain ⟨c, t, rfl⟩ := List.exists_cons_of_ne_nil h.1
  have hc : isDigit c = true := by
    have hall := h.2.1
    rw [List.all_cons, Bool.and_eq_true] at hall
    exact hall.1
  cases neg with
  | false => exact scanOnce_digit lim fuel hc _
  | true => exact scanOnce_minus lim fuel hc _

/-- A text behind a numeral that is read as the given value. -/
theorem scans_number {lim : IntLimit} {neg : Bool} {whole tail : PyStr} {v : PyValue}
    (hw : IsNumeral whole)
    (h : ∀ rest, Ends rest → scanUnsigned lim neg (whole ++ (tail ++ rest)) = .ok (v, rest)) :
    Scans lim (sign neg ++ (whole ++ tail)) v := by
  intro rest fuel hrest hfuel
  have hlen : 0 < whole.length := List.length_pos_iff.mpr hw.1
  obtain ⟨fuel, rfl⟩ : ∃ f, fuel = f + 1 := ⟨fuel - 1, by simp at hfuel; omega⟩
  rw [List.append_assoc, List.append_assoc, scanOnce_sign lim neg hw, h rest hrest]

section Number

variable {lim : IntLimit} {excess : Prop} {numeral : PyStr → Prop}
  (hnumeral : ∀ whole, numeral whole → Fits lim whole ∨ excess)

theorem toInt_fits {whole : PyStr} (h : Fits lim whole) :
    toInt lim whole = some (natOfDigits whole) := by
  have hnot : ¬(lim.digits ≠ 0 ∧ lim.digits < whole.length) := by
    rcases h with h | h <;> omega
  rw [toInt, if_neg hnot]

theorem toInt_overlong {whole : PyStr} (h : ¬ Fits lim whole) : toInt lim whole = none := by
  have hover : lim.digits ≠ 0 ∧ lim.digits < whole.length := by
    unfold Fits at h
    omega
  rw [toInt, if_pos hover]

include hnumeral

theorem Number.reads {t : PyStr} {v : PyValue} (h : Number numeral t v) : Reads lim excess t v := by
  cases h with
  | @integer neg whole hw hn =>
    intro rest fuel hrest hfuel
    have hlen : 0 < whole.length := List.length_pos_iff.mpr hw.1
    obtain ⟨fuel, rfl⟩ : ∃ f, fuel = f + 1 := ⟨fuel - 1, by simp at hfuel; omega⟩
    rw [List.append_assoc, scanOnce_sign lim neg hw, scanUnsigned,
      scanInteger_numeral hw hrest.not_digit]
    by_cases hfits : Fits lim whole
    · left
      simp [hrest.scanFraction, hrest.scanExponent, toInt_fits hfits]
    · right
      refine ⟨(hnumeral whole hn).resolve_left hfits, ?_⟩
      simp [hrest.scanFraction, hrest.scanExponent, toInt_overlong hfits]
  | fraction hw hfrac =>
    apply Scans.reads
    apply scans_number hw
    intro rest hrest
    rw [List.cons_append, scanUnsigned, scanInteger_numeral hw (not_digit_cons (by decide) _)]
    simp only [scanFraction_digits hfrac hrest.not_digit, hrest.scanExponent]
  | exponent hw he =>
    apply Scans.reads
    apply scans_number hw
    intro rest hrest
    rw [scanUnsigned, scanInteger_numeral hw (he.not_digit rest)]
    simp only [he.scanFraction, he.scanExponent hrest]
  | both hw hfrac he =>
    apply Scans.reads
    apply scans_number hw
    intro rest hrest
    rw [List.cons_append, List.append_assoc, scanUnsigned,
      scanInteger_numeral hw (not_digit_cons (by decide) _)]
    simp only [scanFraction_digits hfrac (he.not_digit rest), he.scanExponent hrest]

end Number

/-! ## Values are read -/

/-- Neither a blank, nor a closing bracket, nor a byte order mark. -/
def Starts (t : PyStr) : Prop :=
  ∃ c rest, t = c :: rest ∧ isWs c = false ∧ c ≠ ch ']' ∧ c ≠ 0xFEFF

theorem starts_of_digit {c : CodePoint} (hc : isDigit c = true) (rest : PyStr) :
    Starts (c :: rest) := by
  simp only [isDigit, Bool.and_eq_true, decide_eq_true_eq] at hc
  refine ⟨c, rest, rfl, ?_, ?_, ?_⟩
  · cases hws : isWs c with
    | false => rfl
    | true =>
      simp only [isWs, Bool.or_eq_true, beq_iff_eq] at hws
      rcases hws with ((rfl | rfl) | rfl) | rfl <;> exact absurd hc (by decide)
  · rintro rfl
    exact absurd hc (by decide)
  · rintro rfl
    exact absurd hc (by decide)

theorem starts_number (neg : Bool) {whole : PyStr} (h : IsNumeral whole) (rest : PyStr) :
    Starts (sign neg ++ (whole ++ rest)) := by
  obtain ⟨c, t, rfl⟩ := List.exists_cons_of_ne_nil h.1
  cases neg with
  | true => exact ⟨ch '-', _, rfl, by decide, by decide, by decide⟩
  | false =>
    have hall := h.2.1
    rw [List.all_cons, Bool.and_eq_true] at hall
    exact starts_of_digit hall.1 _

theorem Number.starts {numeral : PyStr → Prop} {t : PyStr} {v : PyValue}
    (h : Number numeral t v) : Starts t := by
  cases h with
  | @integer neg whole hw _ =>
    have := starts_number neg hw []
    rwa [List.append_nil] at this
  | fraction hw _ => exact starts_number _ hw _
  | exponent hw _ => exact starts_number _ hw _
  | both hw _ _ => exact starts_number _ hw _

theorem Value.starts {numeral : PyStr → Prop} {t : PyStr} {v : PyValue}
    (h : Value numeral t v) : Starts t := by
  cases h with
  | null => exact ⟨ch 'n', py "ull", by decide, by decide, by decide, by decide⟩
  | true => exact ⟨ch 't', py "rue", by decide, by decide, by decide, by decide⟩
  | false => exact ⟨ch 'f', py "alse", by decide, by decide, by decide, by decide⟩
  | number hn => exact hn.starts
  | string _ => exact ⟨_, _, rfl, by decide, by decide, by decide⟩
  | emptyArray _ => exact ⟨_, _, rfl, by decide, by decide, by decide⟩
  | array _ _ _ => exact ⟨_, _, rfl, by decide, by decide, by decide⟩
  | emptyObject _ => exact ⟨_, _, rfl, by decide, by decide, by decide⟩
  | object _ _ _ _ => exact ⟨_, _, rfl, by decide, by decide, by decide⟩

theorem skipWs_ws {w : PyStr} (hw : Ws w) (rest : PyStr) : skipWs (w ++ rest) = skipWs rest :=
  List.dropWhile_append_of_pos hw

theorem Starts.skipWs {t : PyStr} (h : Starts t) (rest : PyStr) :
    skipWs (t ++ rest) = t ++ rest := by
  obtain ⟨c, u, rfl, hc, -⟩ := h
  simp [Json.skipWs, hc]

theorem skipWs_cons {c : CodePoint} (hc : isWs c = false) (rest : PyStr) :
    skipWs (c :: rest) = c :: rest := by
  simp [skipWs, hc]

theorem isWs_ends {c : CodePoint} (h : isWs c = true) (rest : PyStr) : Ends (c :: rest) := by
  intro d hd
  cases Option.mem_some_iff.mp hd
  simp only [isWs, Bool.or_eq_true, beq_iff_eq] at h
  rcases h with ((rfl | rfl) | rfl) | rfl <;> decide

/-- A number does not go on into blanks or what is behind them. -/
theorem Ends.ws {rest : PyStr} (h : Ends rest) {w : PyStr} (hw : Ws w) : Ends (w ++ rest) := by
  cases w with
  | nil => exact h
  | cons c w => exact isWs_ends (hw c List.mem_cons_self) _

@[simp] theorem listed_singleton (p : PyStr) : listed [p] = p := by
  simp [listed, join]

@[simp] theorem listed_cons_cons (p q : PyStr) (ps : List PyStr) :
    listed (p :: q :: ps) = p ++ ch ',' :: listed (q :: ps) := by
  simp [listed, join]

/-- The first item, and whatever is behind it. -/
theorem listed_cons {α : Type} (print : α → PyStr) (a : α) (l : List α) :
    ∃ tail, listed ((a :: l).map print) = print a ++ tail := by
  cases l with
  | nil => exact ⟨[], by simp⟩
  | cons b l => exact ⟨_, by simp only [List.map_cons, listed_cons_cons]; rfl⟩

section Structure

variable {lim : IntLimit} {excess : Prop}

/-- What comes behind an element and its blanks. -/
def Delimiter (d : CodePoint) : Prop := d = ch ',' ∨ d = ch ']' ∨ d = ch '\x7d'

theorem Delimiter.skipWs {d : CodePoint} (h : Delimiter d) (rest : PyStr) :
    skipWs (d :: rest) = d :: rest := by
  apply skipWs_cons
  rcases h with rfl | rfl | rfl <;> decide

theorem Delimiter.ends {d : CodePoint} (h : Delimiter d) (rest : PyStr) : Ends (d :: rest) := by
  intro c hc
  cases Option.mem_some_iff.mp hc
  rcases h with rfl | rfl | rfl <;> decide

/-- An element up to the delimiter. -/
theorem Item.scanOnce {i : Item} (hspaced : i.Spaced) (h : Reads lim excess i.text i.value)
    {d : CodePoint} (hd : Delimiter d) (rest : PyStr) {fuel : Nat}
    (hfuel : i.text.length ≤ fuel) :
    scanOnce lim fuel (i.text ++ (i.after ++ d :: rest)) = .ok (i.value, i.after ++ d :: rest) ∨
      excess ∧ scanOnce lim fuel (i.text ++ (i.after ++ d :: rest)) = .error .value :=
  h _ fuel ((hd.ends rest).ws hspaced.2) hfuel

theorem Item.skipWs_after {i : Item} (hspaced : i.Spaced) {d : CodePoint} (hd : Delimiter d)
    (rest : PyStr) : skipWs (i.after ++ d :: rest) = d :: rest := by
  rw [skipWs_ws hspaced.2, hd.skipWs]

theorem Item.skipWs_print {i : Item} (hspaced : i.Spaced) (hstarts : Starts i.text)
    (rest : PyStr) : skipWs (i.print ++ rest) = i.text ++ (i.after ++ rest) := by
  rw [Item.print, List.append_assoc, skipWs_ws hspaced.1, List.append_assoc, hstarts.skipWs]

/-- The elements of an array, one after the other. -/
theorem scanElements_listed {items : List Item} (hne : items ≠ [])
    (hspaced : ∀ i ∈ items, i.Spaced) (hstarts : ∀ i ∈ items, Starts i.text)
    (h : ∀ i ∈ items, Reads lim excess i.text i.value) (rest : PyStr) (acc : List PyValue)
    {fuel : Nat} (hfuel : (listed (items.map Item.print)).length < fuel) :
    scanElements lim fuel (skipWs (listed (items.map Item.print) ++ ch ']' :: rest)) acc =
        .ok (.list (acc ++ items.map Item.value), rest) ∨
      excess ∧ scanElements lim fuel (skipWs (listed (items.map Item.print) ++ ch ']' :: rest)) acc =
        .error .value := by
  induction items generalizing acc fuel with
  | nil => exact absurd rfl hne
  | cons i items ih =>
    obtain ⟨fuel, rfl⟩ : ∃ f, fuel = f + 1 := ⟨fuel - 1, by omega⟩
    have hi := hspaced i List.mem_cons_self
    have hreads := h i List.mem_cons_self
    cases items with
    | nil =>
      have hlen : i.text.length ≤ fuel := by
        simp [Item.print] at hfuel
        omega
      rw [List.map_singleton, listed_singleton,
        Item.skipWs_print hi (hstarts i List.mem_cons_self), scanElements]
      rcases Item.scanOnce hi hreads (.inr (.inl rfl)) rest hlen with hscan | ⟨hover, hscan⟩
      · left
        rw [hscan]
        simp only [Item.skipWs_after hi (.inr (.inl rfl))]
        rw [if_pos trivial]
        simp
      · right
        rw [hscan]
        exact ⟨hover, rfl⟩
    | cons j items =>
      have hlen : i.text.length ≤ fuel ∧ (listed ((j :: items).map Item.print)).length < fuel := by
        simp only [List.map_cons, listed_cons_cons, Item.print, List.length_append,
          List.length_cons] at hfuel ⊢
        omega
      have htext : listed ((i :: j :: items).map Item.print) ++ ch ']' :: rest =
          i.print ++ ch ',' :: (listed ((j :: items).map Item.print) ++ ch ']' :: rest) := by
        simp
      rw [htext, Item.skipWs_print hi (hstarts i List.mem_cons_self), scanElements]
      rcases Item.scanOnce hi hreads (.inl rfl) _ hlen.1 with hscan | ⟨hover, hscan⟩
      · rw [hscan]
        simp only [Item.skipWs_after hi (.inl rfl)]
        rw [if_neg (by decide), if_pos trivial]
        -- the comma is behind the scanner, and the other elements are ahead
        have hrest := ih (by simp) (fun k hk => hspaced k (List.mem_cons_of_mem i hk))
          (fun k hk => hstarts k (List.mem_cons_of_mem i hk))
          (fun k hk => h k (List.mem_cons_of_mem i hk)) (acc ++ [i.value]) hlen.2
        simpa using hrest
      · right
        rw [hscan]
        exact ⟨hover, rfl⟩

/-- A name, its colon and the blanks around it. -/
theorem scanKey_pair {p : Pair} (hspaced : p.Spaced) (hname : Chars p.nameText p.name)
    (hstarts : Starts p.text) (rest : PyStr) :
    scanKey (skipWs (p.print ++ rest)) = .ok (p.name, p.text ++ (p.after ++ rest)) := by
  obtain ⟨hlead, hgap, hitem⟩ := hspaced
  have htext : skipWs (p.print ++ rest) = ch '"' :: (p.nameText ++
      ch '"' :: (p.gap ++ ch ':' :: (p.toItem.print ++ rest))) := by
    simp only [Pair.print, List.append_assoc, List.cons_append]
    rw [skipWs_ws hlead, skipWs_cons (by decide)]
  have hcolon : skipWs (p.gap ++ ch ':' :: (p.toItem.print ++ rest)) =
      ch ':' :: (p.toItem.print ++ rest) := by
    rw [skipWs_ws hgap, skipWs_cons (by decide)]
  rw [htext, scanKey, if_neg (by simp), hname.scanString _ (by simp)]
  simp only [hcolon]
  rw [if_pos trivial, Item.skipWs_print hitem hstarts]

/-- The members of an object, one after the other. -/
theorem scanMembers_listed {pairs : List Pair} (hne : pairs ≠ [])
    (hspaced : ∀ p ∈ pairs, p.Spaced) (hnames : ∀ p ∈ pairs, Chars p.nameText p.name)
    (hstarts : ∀ p ∈ pairs, Starts p.text)
    (h : ∀ p ∈ pairs, Reads lim excess p.text p.value) (rest : PyStr) (acc : PyDict)
    {fuel : Nat} (hfuel : (listed (pairs.map Pair.print)).length < fuel) :
    scanMembers lim fuel (skipWs (listed (pairs.map Pair.print) ++ ch '\x7d' :: rest)) acc =
        .ok (.dict (pairsDict acc pairs), rest) ∨
      excess ∧ scanMembers lim fuel (skipWs (listed (pairs.map Pair.print) ++ ch '\x7d' :: rest)) acc =
        .error .value := by
  induction pairs generalizing acc fuel with
  | nil => exact absurd rfl hne
  | cons p pairs ih =>
    obtain ⟨fuel, rfl⟩ : ∃ f, fuel = f + 1 := ⟨fuel - 1, by omega⟩
    have hp := hspaced p List.mem_cons_self
    have hname := hnames p List.mem_cons_self
    have hreads := h p List.mem_cons_self
    cases pairs with
    | nil =>
      have hlen : p.text.length ≤ fuel := by
        simp [Pair.print, Item.print] at hfuel
        omega
      rw [List.map_singleton, listed_singleton, scanMembers,
        scanKey_pair hp hname (hstarts p List.mem_cons_self)]
      simp only
      rcases Item.scanOnce hp.2.2 hreads (.inr (.inr rfl)) rest hlen with hscan | ⟨hover, hscan⟩
      · left
        rw [hscan]
        simp only [Item.skipWs_after hp.2.2 (.inr (.inr rfl))]
        rw [if_pos trivial]
        rfl
      · right
        rw [hscan]
        exact ⟨hover, rfl⟩
    | cons q pairs =>
      have hlen : p.text.length ≤ fuel ∧ (listed ((q :: pairs).map Pair.print)).length < fuel := by
        simp only [List.map_cons, listed_cons_cons, Pair.print, Item.print, List.length_append,
          List.length_cons] at hfuel ⊢
        omega
      have htext : listed ((p :: q :: pairs).map Pair.print) ++ ch '\x7d' :: rest =
          p.print ++ ch ',' :: (listed ((q :: pairs).map Pair.print) ++ ch '\x7d' :: rest) := by
        simp
      rw [htext, scanMembers, scanKey_pair hp hname (hstarts p List.mem_cons_self)]
      simp only
      rcases Item.scanOnce hp.2.2 hreads (.inl rfl) _ hlen.1 with hscan | ⟨hover, hscan⟩
      · rw [hscan]
        simp only [Item.skipWs_after hp.2.2 (.inl rfl)]
        rw [if_neg (by decide), if_pos trivial]
        exact ih (by simp) (fun k hk => hspaced k (List.mem_cons_of_mem p hk))
          (fun k hk => hnames k (List.mem_cons_of_mem p hk))
          (fun k hk => hstarts k (List.mem_cons_of_mem p hk))
          (fun k hk => h k (List.mem_cons_of_mem p hk)) (acc.insert p.name p.value) hlen.2
      · right
        rw [hscan]
        exact ⟨hover, rfl⟩

end Structure

/-! ## Every text is read -/

section Complete

variable {lim : IntLimit} {excess : Prop} {numeral : PyStr → Prop}
  (hnumeral : ∀ whole, numeral whole → Fits lim whole ∨ excess)

theorem scans_literal (lim : IntLimit) {c : CodePoint} {word : PyStr} {v : PyValue}
    (hquote : c ≠ ch '"') (hbrace : c ≠ ch '\x7b') (hbracket : c ≠ ch '[')
    (h : ∀ rest, scanLiteral (c :: word ++ rest) = some (v, rest)) : Scans lim (c :: word) v := by
  intro rest fuel _ hfuel
  obtain ⟨fuel, rfl⟩ : ∃ f, fuel = f + 1 := ⟨fuel - 1, by simp at hfuel; omega⟩
  have hliteral := h rest
  rw [List.cons_append] at hliteral ⊢
  rw [scanOnce, if_neg hquote, if_neg hbrace, if_neg hbracket, hliteral]

include hnumeral

theorem Value.reads {t : PyStr} {v : PyValue} (h : Value numeral t v) : Reads lim excess t v := by
  induction h with
  | null => exact (scans_literal lim (by decide) (by decide) (by decide) fun _ => rfl).reads
  | true => exact (scans_literal lim (by decide) (by decide) (by decide) fun _ => rfl).reads
  | false => exact (scans_literal lim (by decide) (by decide) (by decide) fun _ => rfl).reads
  | number hn => exact hn.reads hnumeral
  | string hs => exact (hs.scans lim).reads
  | emptyArray hw =>
    apply Scans.reads
    intro rest fuel _ hfuel
    obtain ⟨fuel, rfl⟩ : ∃ f, fuel = f + 1 := ⟨fuel - 1, by simp at hfuel; omega⟩
    rw [List.cons_append, List.append_assoc, List.singleton_append, scanOnce, if_neg (by decide),
      if_neg (by decide), if_pos rfl, skipWs_ws hw, skipWs_cons (by decide)]
    simp only
    rw [if_pos trivial]
  | emptyObject hw =>
    apply Scans.reads
    intro rest fuel _ hfuel
    obtain ⟨fuel, rfl⟩ : ∃ f, fuel = f + 1 := ⟨fuel - 1, by simp at hfuel; omega⟩
    rw [List.cons_append, List.append_assoc, List.singleton_append, scanOnce, if_neg (by decide),
      if_pos rfl, skipWs_ws hw, skipWs_cons (by decide)]
    simp only
    rw [if_pos trivial]
  | @array items hne hspaced hvalues ih =>
    intro rest fuel _ hfuel
    have hstarts : ∀ i ∈ items, Starts i.text := fun i hi => (hvalues i hi).starts
    obtain ⟨fuel, rfl⟩ : ∃ f, fuel = f + 1 := ⟨fuel - 1, by simp at hfuel; omega⟩
    have hlen : (listed (items.map Item.print)).length < fuel := by
      simp only [List.length_cons, List.length_append, List.length_nil] at hfuel
      omega
    have helements := scanElements_listed hne hspaced hstarts ih rest [] hlen
    obtain ⟨i, more, rfl⟩ := List.exists_cons_of_ne_nil hne
    obtain ⟨tail, htail⟩ := listed_cons Item.print i more
    obtain ⟨c, u, htext, hws, hclose, -⟩ := hstarts i List.mem_cons_self
    have hskip : skipWs (listed ((i :: more).map Item.print) ++ ch ']' :: rest) =
        c :: (u ++ (i.after ++ (tail ++ ch ']' :: rest))) := by
      rw [htail, List.append_assoc, Item.skipWs_print (hspaced i List.mem_cons_self)
        (hstarts i List.mem_cons_self), htext]
      rfl
    rw [hskip] at helements
    rw [List.cons_append, List.append_assoc, List.singleton_append, scanOnce, if_neg (by decide),
      if_neg (by decide), if_pos rfl, hskip]
    simp only
    rw [if_neg hclose]
    exact helements
  | @object pairs hne hspaced hnames hvalues ih =>
    intro rest fuel _ hfuel
    have hstarts : ∀ p ∈ pairs, Starts p.text := fun p hp => (hvalues p hp).starts
    obtain ⟨fuel, rfl⟩ : ∃ f, fuel = f + 1 := ⟨fuel - 1, by simp at hfuel; omega⟩
    have hlen : (listed (pairs.map Pair.print)).length < fuel := by
      simp only [List.length_cons, List.length_append, List.length_nil] at hfuel
      omega
    have hmembers := scanMembers_listed hne hspaced hnames hstarts ih rest [] hlen
    obtain ⟨p, more, rfl⟩ := List.exists_cons_of_ne_nil hne
    obtain ⟨tail, htail⟩ := listed_cons Pair.print p more
    have hskip : ∃ u, skipWs (listed ((p :: more).map Pair.print) ++ ch '\x7d' :: rest) =
        ch '"' :: u := by
      rw [htail, Pair.print, List.append_assoc, List.append_assoc,
        skipWs_ws (hspaced p List.mem_cons_self).1, List.cons_append, skipWs_cons (by decide)]
      exact ⟨_, rfl⟩
    obtain ⟨u, hskip⟩ := hskip
    rw [hskip] at hmembers
    rw [List.cons_append, List.append_assoc, List.singleton_append, scanOnce, if_neg (by decide),
      if_pos rfl, hskip]
    simp only
    rw [if_neg (by decide)]
    exact hmembers

/-- **`json.loads` reads the grammar**: as the value, unless an integer is
over-long. -/
theorem Text.loads {s : PyStr} {v : PyValue} (h : Text numeral s v) :
    loads lim s = .ok v ∨ excess ∧ loads lim s = .error .value := by
  obtain ⟨before, t, after, hbefore, hvalue, hafter, rfl⟩ := h
  obtain ⟨c, u, ht, hws, -, hbom⟩ := hvalue.starts
  have hhead : (before ++ (t ++ after)).head? ≠ some 0xFEFF := by
    cases before with
    | nil =>
      rw [ht]
      simpa using hbom
    | cons d before =>
      intro hd
      cases Option.some.inj hd
      exact absurd (hbefore _ List.mem_cons_self) (by decide)
  have hskip : skipWs (before ++ (t ++ after)) = t ++ after := by
    rw [skipWs_ws hbefore, hvalue.starts.skipWs]
  have hend : skipWs after = [] := by
    have := skipWs_ws hafter []
    rwa [List.append_nil] at this
  have hends : Ends after := by
    have hnil : Ends [] := by simp [Ends]
    have := hnil.ws hafter
    rwa [List.append_nil] at this
  rw [Json.loads, if_neg hhead, hskip]
  rcases hvalue.reads hnumeral after (before ++ (t ++ after)).length hends
    (by simp only [List.length_append]; omega) with hscan | ⟨hover, hscan⟩
  · left
    rw [hscan]
    simp only
    rw [if_pos hend]
  · right
    rw [hscan]
    exact ⟨hover, rfl⟩

end Complete

/-- Without over-long integers every text is read. -/
theorem Text.loads_eq_ok {lim : IntLimit} {s : PyStr} {v : PyValue} (h : Text (Fits lim) s v) :
    Json.loads lim s = .ok v := by
  have hfits : ∀ whole, Fits lim whole → Fits lim whole ∨ False := fun _ => .inl
  exact (Text.loads hfits h).resolve_right (·.1)

theorem Rfc8259.loads {s : PyStr} {v : PyValue} (h : Rfc8259 s v) (lim : IntLimit) :
    Json.loads lim s = .ok v ∨ Json.loads lim s = .error .value := by
  have hover : ∀ whole, True → Fits lim whole ∨ True := fun _ => .inr
  exact (Text.loads hover h).imp_right (·.2)

/-! ## Objects -/

theorem pairsDict_keyed {d : PyDict} (h : d.Keyed) (pairs : List Pair) :
    (pairsDict d pairs).Keyed := by
  induction pairs generalizing d with
  | nil => exact h
  | cons p pairs ih => exact ih (h.insert p.name p.value)

theorem Text.keyed {numeral : PyStr → Prop} {s : PyStr} {d : PyDict}
    (h : Text numeral s (.dict d)) : d.Keyed := by
  obtain ⟨_, _, _, _, hvalue, _, _⟩ := h
  cases hvalue with
  | number hn => cases hn
  | emptyObject _ => exact .nil
  | object _ _ _ _ => exact pairsDict_keyed .nil _

/-- The text of an object begins with its brace. -/
theorem Text.brace {numeral : PyStr → Prop} {s : PyStr} {d : PyDict}
    (h : Text numeral s (.dict d)) : ∃ before rest, Ws before ∧ s = before ++ ch '\x7b' :: rest := by
  obtain ⟨before, t, after, hbefore, hvalue, -, rfl⟩ := h
  cases hvalue with
  | number hn => cases hn
  | emptyObject _ => exact ⟨before, _, hbefore, rfl⟩
  | object _ _ _ _ => exact ⟨before, _, hbefore, rfl⟩

end Json
