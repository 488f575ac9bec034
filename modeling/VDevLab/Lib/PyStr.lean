import Mathlib.Data.Nat.Digits.Lemmas
import Mathlib.Data.List.Sort

/-!
# Python strings

A Python `str` is a sequence of code points, lone surrogates included, so it
is a list of numbers below 0x110000 and not a `String`. This file has what
programs do with the decimal numerals in such strings: printing a number,
reading it back, and the digit limit of `int`.
-/

/-- A Unicode code point; surrogates count. -/
abbrev CodePoint := Fin 0x110000

instance instNeZeroCodePoints : NeZero 0x110000 := ⟨by decide⟩

abbrev PyStr := List CodePoint

/-- The code point of a Lean character. -/
def CodePoint.ofChar (c : Char) : CodePoint :=
  ⟨c.toNat, by have := c.valid; simp only [Char.toNat]; rcases this with h | h <;> omega⟩

/-- A string literal of the source. -/
def py (s : String) : PyStr := s.toList.map CodePoint.ofChar

/-- A character literal of the source. -/
abbrev ch (c : Char) : CodePoint := CodePoint.ofChar c

namespace PyStr

/-! ## Decimal numerals -/

/-- The ASCII digit of value `d`. -/
def digit (d : Nat) : CodePoint := Fin.ofNat _ (0x30 + d)

/-- `[0-9]` in a pattern: the ASCII digits only. -/
def isDigit (c : CodePoint) : Bool := 0x30 ≤ c.val && c.val ≤ 0x39

def digitValue (c : CodePoint) : Nat := c.val - 0x30

/-- `str(n)` for a non-negative integer. -/
def decimal (n : Nat) : PyStr :=
  if n = 0 then [digit 0] else (Nat.digits 10 n).reverse.map digit

/-- `str(n)`. -/
def integer : Int → PyStr
  | .ofNat n => decimal n
  | .negSucc n => ch '-' :: decimal (n + 1)

/-- The value of a string of digits. -/
def natOfDigits (s : PyStr) : Nat := Nat.ofDigits 10 (s.map digitValue).reverse

/-- Digits without a superfluous leading zero: `0|[1-9][0-9]*`. -/
def IsNumeral (s : PyStr) : Prop :=
  s ≠ [] ∧ s.all isDigit = true ∧ (s.head? = some (digit 0) → s = [digit 0])

theorem digitValue_digit {d : Nat} (h : d < 10) : digitValue (digit d) = d := by
  have hlt : 0x30 + d < 0x110000 := by omega
  simp only [digitValue, digit, Fin.ofNat, Nat.mod_eq_of_lt hlt]
  omega

theorem isDigit_digit {d : Nat} (h : d < 10) : isDigit (digit d) = true := by
  have hlt : 0x30 + d < 0x110000 := by omega
  simp only [isDigit, digit, Fin.ofNat, Nat.mod_eq_of_lt hlt, Bool.and_eq_true, decide_eq_true_eq]
  omega

theorem digitValue_lt {c : CodePoint} (h : isDigit c = true) : digitValue c < 10 := by
  simp only [isDigit, Bool.and_eq_true, decide_eq_true_eq] at h
  simp only [digitValue]
  omega

theorem digit_digitValue {c : CodePoint} (h : isDigit c = true) : digit (digitValue c) = c := by
  simp only [isDigit, Bool.and_eq_true, decide_eq_true_eq] at h
  ext
  simp only [digit, digitValue, Fin.ofNat]
  omega

/-- Digits are not affected by printing and reading their values. -/
theorem map_digit_digitValue {s : PyStr} (h : ∀ c ∈ s, isDigit c = true) :
    (s.map digitValue).map digit = s := by
  rw [List.map_map]
  conv_rhs => rw [← List.map_id s]
  apply List.map_congr_left
  intro c hc
  exact digit_digitValue (h c hc)

theorem natOfDigits_decimal (n : Nat) : natOfDigits (decimal n) = n := by
  unfold decimal
  split
  · next h0 => subst h0; rfl
  · have hmap : (Nat.digits 10 n).reverse.map (digitValue ∘ digit) = (Nat.digits 10 n).reverse := by
      conv_rhs => rw [← List.map_id (Nat.digits 10 n).reverse]
      apply List.map_congr_left
      intro d hd
      exact digitValue_digit (Nat.digits_lt_base (by omega) (List.mem_reverse.mp hd))
    rw [natOfDigits, List.map_map, hmap, List.reverse_reverse, Nat.ofDigits_digits]

theorem isNumeral_decimal (n : Nat) : IsNumeral (decimal n) := by
  unfold decimal
  split
  · exact ⟨by simp, by simp [isDigit_digit], fun _ => rfl⟩
  · next h0 =>
    have hne : Nat.digits 10 n ≠ [] := Nat.digits_ne_nil_iff_ne_zero.mpr h0
    refine ⟨by simpa using hne, ?_, ?_⟩
    · rw [List.all_eq_true]
      intro c hc
      obtain ⟨d, hd, rfl⟩ := List.mem_map.mp hc
      exact isDigit_digit (Nat.digits_lt_base (by omega) (List.mem_reverse.mp hd))
    · -- the leading digit is the last of the little-endian list, which is not zero
      intro hhead
      have hlast := Nat.getLast_digit_ne_zero 10 h0
      rw [List.head?_map, List.head?_reverse, List.getLast?_eq_some_getLast hne,
        Option.map_some, Option.some.injEq] at hhead
      have hlt := Nat.digits_lt_base (by omega : 1 < 10) (List.getLast_mem hne)
      have := congrArg digitValue hhead
      rw [digitValue_digit hlt, digitValue_digit (by omega)] at this
      exact absurd this hlast

/-- A numeral is the numeral of its value. -/
theorem decimal_natOfDigits {s : PyStr} (h : IsNumeral s) : decimal (natOfDigits s) = s := by
  obtain ⟨hne, hdigits, hzero⟩ := h
  rw [List.all_eq_true] at hdigits
  by_cases hhead : s.head? = some (digit 0)
  · rw [hzero hhead]
    rfl
  · have hlast : ∀ hl : (s.map digitValue).reverse ≠ [],
        (s.map digitValue).reverse.getLast hl ≠ 0 := by
      intro hl h0
      obtain ⟨c, t, rfl⟩ := List.exists_cons_of_ne_nil hne
      simp only [List.map_cons, List.reverse_cons, List.getLast_append_of_ne_nil,
        ne_eq, List.cons_ne_nil, not_false_eq_true, List.getLast_singleton] at h0
      apply hhead
      rw [List.head?_cons, ← digit_digitValue (hdigits c List.mem_cons_self), h0]
    have hdig : Nat.digits 10 (natOfDigits s) = (s.map digitValue).reverse := by
      refine Nat.digits_ofDigits 10 (by omega) _ ?_ hlast
      intro d hd
      obtain ⟨c, hc, rfl⟩ := List.mem_map.mp (List.mem_reverse.mp hd)
      exact digitValue_lt (hdigits c hc)
    have hnz : natOfDigits s ≠ 0 := by
      rw [← Nat.digits_ne_nil_iff_ne_zero (b := 10), hdig]
      simpa using hne
    rw [decimal, if_neg hnz, hdig, List.reverse_reverse, map_digit_digitValue hdigits]

theorem length_decimal_le {n k : Nat} (hk : 0 < k) (h : n < 10 ^ k) :
    (decimal n).length ≤ k := by
  unfold decimal
  split
  · exact hk
  · rw [List.length_map, List.length_reverse]
    exact (Nat.digits_length_le_iff (by omega) n).mpr h

instance (s : PyStr) : Decidable (IsNumeral s) :=
  inferInstanceAs (Decidable (_ ∧ _ ∧ (_ → _)))

/-! ## Lists of strings -/

/-- Comparison by code points. -/
def le : PyStr → PyStr → Bool
  | [], _ => true
  | _ :: _, [] => false
  | a :: s, b :: t => a < b || (a = b && le s t)

/-- `sorted` of a collection of strings. -/
def sorted (l : List PyStr) : List PyStr := l.insertionSort (le · ·)

/-- `", ".join(...)` and the like. -/
def join (sep : PyStr) (l : List PyStr) : PyStr := (l.intersperse sep).flatten

@[simp] theorem sorted_eq_nil {l : List PyStr} : sorted l = [] ↔ l = [] := by
  constructor
  · intro h
    have hperm := List.perm_insertionSort (le · ·) l
    rw [sorted] at h
    rw [h] at hperm
    exact hperm.symm.eq_nil
  · rintro rfl
    rfl

/-- `text in s`: the text stands somewhere in the string. -/
def isSubstring (text : PyStr) : PyStr → Bool
  | [] => text.isEmpty
  | c :: s => text.isPrefixOf (c :: s) || isSubstring text s

theorem isSubstring_iff {text s : PyStr} : isSubstring text s = true ↔ text <:+: s := by
  induction s with
  | nil => simp [isSubstring]
  | cons c s ih =>
    rw [isSubstring, Bool.or_eq_true, List.isPrefixOf_iff_prefix, ih, List.infix_cons_iff]

/-! ## Lines and blanks -/

/-- The line boundaries of `str.splitlines`; CR LF counts once. -/
def isLineBreak (c : CodePoint) : Bool :=
  (0x0a ≤ c.val && c.val ≤ 0x0d) || (0x1c ≤ c.val && c.val ≤ 0x1e) || c.val == 0x85 ||
    c.val == 0x2028 || c.val == 0x2029

/-- `splitlines` with the characters of the current line, newest first; a
line feed right after a carriage return belongs to it. -/
def splitlinesFrom (line : PyStr) (afterCr : Bool) : PyStr → List PyStr
  | [] => if line = [] then [] else [line.reverse]
  | c :: s =>
      if afterCr && c == ch '\n' then splitlinesFrom [] false s
      else if isLineBreak c then line.reverse :: splitlinesFrom [] (c == ch '\r') s
      else splitlinesFrom (c :: line) false s

/-- `s.splitlines()`. -/
def splitlines (s : PyStr) : List PyStr := splitlinesFrom [] false s

/-- Line ends are read as `\n`; `cr` is a carriage return just before. -/
def normalizeLines (cr : Bool) : PyStr → PyStr
  | [] => []
  | c :: s =>
      if c = ch '\r' then ch '\n' :: normalizeLines true s
      else if cr && c = ch '\n' then normalizeLines false s
      else c :: normalizeLines false s

/-- The characters that `str.strip` removes. -/
def isSpace (c : CodePoint) : Bool :=
  (0x09 ≤ c.val && c.val ≤ 0x0d) || (0x1c ≤ c.val && c.val ≤ 0x20) || c.val == 0x85 ||
    c.val == 0xa0 || c.val == 0x1680 || (0x2000 ≤ c.val && c.val ≤ 0x200a) || c.val == 0x2028 ||
    c.val == 0x2029 || c.val == 0x202f || c.val == 0x205f || c.val == 0x3000

/-- `not s.strip()`. -/
def isBlank (s : PyStr) : Bool := s.all isSpace

theorem splitlinesFrom_line {line rest : PyStr} (acc : PyStr)
    (h : ∀ c ∈ line, isLineBreak c = false) :
    splitlinesFrom acc false (line ++ ch '\n' :: rest) =
      (acc.reverse ++ line) :: splitlinesFrom [] false rest := by
  induction line generalizing acc with
  | nil =>
    have hbreak : isLineBreak (ch '\n') = true := by decide
    have hcr : (ch '\n' == ch '\r') = false := by decide
    rw [List.nil_append, splitlinesFrom, Bool.false_and, if_neg (by decide), if_pos hbreak, hcr,
      List.append_nil]
  | cons c line ih =>
    have hc : isLineBreak c = false := h c List.mem_cons_self
    rw [List.cons_append, splitlinesFrom, Bool.false_and, if_neg (by decide), hc,
      if_neg (by decide), ih (c :: acc) fun d hd => h d (List.mem_cons_of_mem c hd)]
    simp

/-- The first line, when it contains no other boundary. -/
theorem splitlines_line {line rest : PyStr} (h : ∀ c ∈ line, isLineBreak c = false) :
    splitlines (line ++ ch '\n' :: rest) = line :: splitlines rest :=
  splitlinesFrom_line [] h

theorem normalizeLines_eq_self {s : PyStr} (h : ch '\r' ∉ s) : normalizeLines false s = s := by
  induction s with
  | nil => rfl
  | cons c s ih =>
    rw [List.mem_cons, not_or] at h
    rw [normalizeLines, if_neg (Ne.symm h.1), Bool.false_and, if_neg (by decide), ih h.2]

/-- The lines of the beginning of a text: the lines of the text up to
somewhere, and perhaps the beginning of the next one. -/
inductive Torn : List PyStr → List PyStr → Prop
  | whole (rest : List PyStr) : Torn [] rest
  | torn {piece line : PyStr} (h : piece <+: line) (rest : List PyStr) : Torn [piece] (line :: rest)
  | line (l : PyStr) {short long : List PyStr} (h : Torn short long) : Torn (l :: short) (l :: long)

/-- A line that is begun goes on. -/
theorem splitlinesFrom_begun {line : PyStr} (h : line ≠ []) (s : PyStr) :
    ∃ tail rest, splitlinesFrom line false s = (line.reverse ++ tail) :: rest := by
  induction s generalizing line with
  | nil => exact ⟨[], [], by rw [splitlinesFrom, if_neg h, List.append_nil]⟩
  | cons c s ih =>
    rw [splitlinesFrom, Bool.false_and, if_neg (by decide)]
    by_cases hbreak : isLineBreak c = true
    · rw [if_pos hbreak]
      exact ⟨[], splitlinesFrom [] (c == ch '\r') s, by rw [List.append_nil]⟩
    · rw [if_neg hbreak]
      obtain ⟨tail, rest, hrest⟩ := ih (List.cons_ne_nil c line)
      exact ⟨c :: tail, rest, by rw [hrest, List.reverse_cons, List.append_assoc]; rfl⟩

theorem splitlinesFrom_torn (s more : PyStr) {line : PyStr} {cr : Bool}
    (hcr : cr = true → line = []) :
    Torn (splitlinesFrom line cr s) (splitlinesFrom line cr (s ++ more)) := by
  induction s generalizing line cr with
  | nil =>
    rw [List.nil_append, splitlinesFrom]
    by_cases hline : line = []
    · rw [if_pos hline]
      exact .whole _
    · have hfalse : cr = false := Bool.eq_false_iff.mpr fun hc => hline (hcr hc)
      obtain ⟨tail, rest, hrest⟩ := splitlinesFrom_begun hline more
      rw [if_neg hline, hfalse, hrest]
      exact .torn (List.prefix_append _ _) rest
  | cons c s ih =>
    rw [List.cons_append, splitlinesFrom, splitlinesFrom]
    by_cases hlf : (cr && c == ch '\n') = true
    · rw [if_pos hlf, if_pos hlf]
      exact ih (fun _ => rfl)
    · rw [if_neg hlf, if_neg hlf]
      by_cases hbreak : isLineBreak c = true
      · rw [if_pos hbreak, if_pos hbreak]
        exact .line _ (ih fun _ => rfl)
      · rw [if_neg hbreak, if_neg hbreak]
        exact ih (fun h => absurd h (by decide))

/-- A text that is cut somewhere keeps its lines up to there. -/
theorem splitlines_torn (s more : PyStr) : Torn (splitlines s) (splitlines (s ++ more)) :=
  splitlinesFrom_torn s more fun _ => rfl

theorem isBlank_of_begins {piece line : PyStr} (h : piece <+: line) (hline : isBlank line = true) :
    isBlank piece = true := by
  rw [isBlank, List.all_eq_true] at hline ⊢
  exact fun c hc => hline c (h.subset hc)

/-! ## `int` of a numeral -/

/-- `sys.get_int_max_str_digits()`: no limit, or at least 640. -/
structure IntLimit where
  digits : Nat
  admitted : digits = 0 ∨ 640 ≤ digits

/-- The digit limit a Python interpreter starts with. -/
def defaultIntLimit : IntLimit := ⟨4300, .inr (by decide)⟩

/-- `int(s)` of a string of digits; `none` is the `ValueError` of an
over-long one. -/
def toInt (lim : IntLimit) (s : PyStr) : Option Nat :=
  if lim.digits ≠ 0 ∧ lim.digits < s.length then none else some (natOfDigits s)

theorem toInt_decimal (lim : IntLimit) {n : Nat} (h : n < 10 ^ 640) :
    toInt lim (decimal n) = some n := by
  have hlen := length_decimal_le (by omega) h
  have hlim := lim.admitted
  rw [toInt, if_neg (by omega), natOfDigits_decimal]

theorem toInt_eq_some {lim : IntLimit} {s : PyStr} {n : Nat} (h : toInt lim s = some n) :
    n = natOfDigits s := by
  unfold toInt at h
  split at h
  · cases h
  · exact (Option.some.inj h).symm

end PyStr
