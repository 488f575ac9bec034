import Mathlib.Data.List.TakeWhile
import VDevLab.Lib.PyStr

/-!
# `strtol` and `strtoul`

The conversions of the C library to the base 10, on LP64 and in the C
locale: blanks, a sign, digits, and what is left behind them. Without a
digit nothing is taken and the value is zero. `strtoul` takes a minus too
and negates modulo 2^64.

The text is a C string without its NUL. Programs accept a number when
nothing is left; `Spelled` says which texts these are.
-/

namespace CInteger

open PyStr

/-! ## The conversions -/

/-- `isspace`. -/
def isSpace (c : CodePoint) : Bool := c == ch ' ' || (0x09 ≤ c.val && c.val ≤ 0x0d)

/-- Whether there is a minus, and what is behind the sign. -/
def splitSign : PyStr → Bool × PyStr
  | [] => (false, [])
  | c :: s =>
      if c = ch '-' then (true, s) else if c = ch '+' then (false, s) else (false, c :: s)

/-- The sign and the digits that a conversion finds, and what is left. -/
structure Subject where
  neg : Bool
  digits : PyStr
  rest : PyStr
  deriving DecidableEq

def subject (s : PyStr) : Option Subject :=
  let (neg, t) := splitSign (s.dropWhile isSpace)
  if t.takeWhile isDigit = [] then none
  else some ⟨neg, t.takeWhile isDigit, t.dropWhile isDigit⟩

/-- The value, the text behind it, and whether `errno` is `ERANGE`. -/
structure Converted (α : Type) where
  value : α
  rest : PyStr
  range : Bool
  deriving DecidableEq

abbrev longMax : Int := 2 ^ 63 - 1
abbrev longMin : Int := -2 ^ 63
abbrev ulongMax : Nat := 2 ^ 64 - 1

/-- The number that a sign and digits denote. -/
def signed (neg : Bool) (digits : PyStr) : Int :=
  if neg then -natOfDigits digits else natOfDigits digits

/-- `strtol(s, &end, 10)`. -/
def strtol (s : PyStr) : Converted Int :=
  match subject s with
  | none => ⟨0, s, false⟩
  | some ⟨neg, digits, rest⟩ =>
      if longMax < signed neg digits then ⟨longMax, rest, true⟩
      else if signed neg digits < longMin then ⟨longMin, rest, true⟩
      else ⟨signed neg digits, rest, false⟩

/-- `strtoul(s, &end, 10)`. -/
def strtoul (s : PyStr) : Converted Nat :=
  match subject s with
  | none => ⟨0, s, false⟩
  | some ⟨neg, digits, rest⟩ =>
      if ulongMax < natOfDigits digits then ⟨ulongMax, rest, true⟩
      else
        ⟨if neg then (2 ^ 64 - natOfDigits digits) % 2 ^ 64 else natOfDigits digits, rest, false⟩

/-! ## Texts that are numbers -/

/-- Blanks, a sign or none, digits, and nothing else. -/
inductive Spelled : Bool → PyStr → PyStr → Prop
  | mk {neg : Bool} {blanks sign digits : PyStr} (hblanks : ∀ c ∈ blanks, isSpace c = true)
      (hsign : (sign = [] ∨ sign = [ch '+']) ∧ neg = false ∨ sign = [ch '-'] ∧ neg = true)
      (hne : digits ≠ []) (hdigits : ∀ c ∈ digits, isDigit c = true) :
      Spelled neg digits (blanks ++ sign ++ digits)

theorem Spelled.ne_nil {neg : Bool} {digits s : PyStr} (h : Spelled neg digits s) : s ≠ [] := by
  cases h with
  | mk _ _ hne _ => simp [hne]

/-- A numeral spells itself. -/
theorem spelled_decimal (n : Nat) : Spelled false (decimal n) (decimal n) := by
  obtain ⟨hne, hdigits, -⟩ := isNumeral_decimal n
  exact @Spelled.mk false [] [] (decimal n) (by simp) (.inl ⟨.inl rfl, rfl⟩) hne
    (List.all_eq_true.mp hdigits)

theorem isSpace_of_isDigit {c : CodePoint} (h : isDigit c = true) : isSpace c = false := by
  simp only [isDigit, Bool.and_eq_true, decide_eq_true_eq] at h
  have hblank : (ch ' ').val = 0x20 := rfl
  simp only [isSpace, Bool.or_eq_false_iff, beq_eq_false_iff_ne, ne_eq, Bool.and_eq_false_iff,
    decide_eq_false_iff_not]
  refine ⟨?_, by omega⟩
  rintro rfl
  omega

theorem dropWhile_blanks {blanks s : PyStr} (h : ∀ c ∈ blanks, isSpace c = true) {c : CodePoint}
    (hc : isSpace c = false) : (blanks ++ c :: s).dropWhile isSpace = c :: s := by
  induction blanks with
  | nil => simp [hc]
  | cons b blanks ih =>
    rw [List.cons_append, List.dropWhile_cons_of_pos (h b List.mem_cons_self)]
    exact ih fun d hd => h d (List.mem_cons_of_mem b hd)

theorem splitSign_eq {s t : PyStr} {neg : Bool} (h : splitSign s = (neg, t)) :
    ∃ sign, s = sign ++ t ∧
      ((sign = [] ∨ sign = [ch '+']) ∧ neg = false ∨ sign = [ch '-'] ∧ neg = true) := by
  cases s with
  | nil =>
    cases h
    exact ⟨[], rfl, .inl ⟨.inl rfl, rfl⟩⟩
  | cons c s =>
    rw [splitSign] at h
    split at h
    · next hminus =>
      cases h
      exact ⟨[c], rfl, .inr ⟨by rw [hminus], rfl⟩⟩
    · split at h
      · next hplus =>
        cases h
        exact ⟨[c], rfl, .inl ⟨.inr (by rw [hplus]), rfl⟩⟩
      · cases h
        exact ⟨[], rfl, .inl ⟨.inl rfl, rfl⟩⟩

theorem splitSign_append {sign digits : PyStr} {neg : Bool}
    (hsign : (sign = [] ∨ sign = [ch '+']) ∧ neg = false ∨ sign = [ch '-'] ∧ neg = true)
    {c : CodePoint} (hc : isDigit c = true) :
    splitSign (sign ++ c :: digits) = (neg, c :: digits) := by
  have hminus : c ≠ ch '-' := by
    rintro rfl
    exact absurd hc (by decide)
  have hplus : c ≠ ch '+' := by
    rintro rfl
    exact absurd hc (by decide)
  rcases hsign with ⟨rfl | rfl, rfl⟩ | ⟨rfl, rfl⟩
  · rw [List.nil_append, splitSign, if_neg hminus, if_neg hplus]
  · rw [List.cons_append, splitSign, if_neg (by decide), if_pos rfl]
    rfl
  · rw [List.cons_append, splitSign, if_pos rfl]
    rfl

/-- Behind the blanks there is a sign or a digit. -/
theorem Spelled.dropWhile {neg : Bool} {digits s : PyStr} (h : Spelled neg digits s) :
    splitSign (s.dropWhile isSpace) = (neg, digits) := by
  cases h with
  | @mk blanks sign digits hblanks hsign hne hdigits =>
  obtain ⟨c, tail, rfl⟩ := List.exists_cons_of_ne_nil hne
  have hc : isDigit c = true := hdigits c List.mem_cons_self
  have hhead : ∃ d more, sign ++ c :: tail = d :: more ∧ isSpace d = false := by
    rcases hsign with ⟨rfl | rfl, -⟩ | ⟨rfl, -⟩
    · exact ⟨c, tail, rfl, isSpace_of_isDigit hc⟩
    · exact ⟨ch '+', c :: tail, rfl, by decide⟩
    · exact ⟨ch '-', c :: tail, rfl, by decide⟩
  obtain ⟨d, more, hmore, hd⟩ := hhead
  rw [List.append_assoc, hmore, dropWhile_blanks hblanks hd, ← hmore, splitSign_append hsign hc]

/-- The conversions take all of a text exactly when it is a number. -/
theorem subject_whole {s digits : PyStr} {neg : Bool} :
    subject s = some ⟨neg, digits, []⟩ ↔ Spelled neg digits s := by
  constructor
  · intro h
    unfold subject at h
    cases hsplit : splitSign (s.dropWhile isSpace) with
    | mk neg' t =>
      rw [hsplit] at h
      simp only at h
      split at h
      · cases h
      · next hne =>
        simp only [Option.some.injEq, Subject.mk.injEq] at h
        obtain ⟨rfl, rfl, hrest⟩ := h
        obtain ⟨sign, hs, hsign⟩ := splitSign_eq hsplit
        have hall := List.takeWhile_append_dropWhile (p := isDigit) (l := t)
        rw [hrest, List.append_nil] at hall
        have htext : s = s.takeWhile isSpace ++ sign ++ t.takeWhile isDigit := by
          rw [hall, List.append_assoc, ← hs, List.takeWhile_append_dropWhile]
        rw [htext]
        refine .mk ?_ hsign hne ?_
        · exact fun c hc => List.mem_takeWhile_imp hc
        · exact fun c hc => List.mem_takeWhile_imp hc
  · intro h
    have hdigits : digits ≠ [] ∧ ∀ c ∈ digits, isDigit c = true := by
      cases h with
      | mk _ _ hne hdigits => exact ⟨hne, hdigits⟩
    have htake : digits.takeWhile isDigit = digits := List.takeWhile_eq_self_iff.mpr hdigits.2
    have hdrop : digits.dropWhile isDigit = [] := List.dropWhile_eq_nil_iff.mpr hdigits.2
    unfold subject
    rw [h.dropWhile]
    simp only [htake, hdrop, if_neg hdigits.1]

/-- `strtol` took all of the text and it fits: a number, or nothing at all. -/
theorem strtol_whole {s : PyStr} {n : Int} :
    strtol s = ⟨n, [], false⟩ ↔ (s = [] ∧ n = 0) ∨
      ∃ neg digits, Spelled neg digits s ∧ signed neg digits = n ∧ longMin ≤ n ∧ n ≤ longMax := by
  constructor
  · intro h
    unfold strtol at h
    cases hsub : subject s with
    | none =>
      rw [hsub] at h
      cases h
      exact .inl ⟨rfl, rfl⟩
    | some t =>
      obtain ⟨neg, digits, rest⟩ := t
      rw [hsub] at h
      simp only at h
      split at h
      · cases h
      · split at h
        · cases h
        · next hmax hmin =>
          simp only [Converted.mk.injEq, and_true] at h
          obtain ⟨rfl, rfl⟩ := h
          exact .inr ⟨neg, digits, subject_whole.mp hsub, rfl, not_lt.mp hmin, not_lt.mp hmax⟩
  · rintro (⟨rfl, rfl⟩ | ⟨neg, digits, hs, hn, hmin, hmax⟩)
    · rfl
    · unfold strtol
      rw [subject_whole.mpr hs]
      simp only
      rw [hn, if_neg (not_lt.mpr hmax), if_neg (not_lt.mpr hmin)]

/-- The same of `strtoul`; a minus is a negation modulo 2^64. -/
theorem strtoul_whole {s : PyStr} {n : Nat} :
    strtoul s = ⟨n, [], false⟩ ↔ (s = [] ∧ n = 0) ∨
      ∃ neg digits, Spelled neg digits s ∧ natOfDigits digits ≤ ulongMax ∧
        n = if neg then (2 ^ 64 - natOfDigits digits) % 2 ^ 64 else natOfDigits digits := by
  constructor
  · intro h
    unfold strtoul at h
    cases hsub : subject s with
    | none =>
      rw [hsub] at h
      cases h
      exact .inl ⟨rfl, rfl⟩
    | some t =>
      obtain ⟨neg, digits, rest⟩ := t
      rw [hsub] at h
      simp only at h
      split at h
      · cases h
      · next hmax =>
        simp only [Converted.mk.injEq, and_true] at h
        obtain ⟨hn, rfl⟩ := h
        exact .inr ⟨neg, digits, subject_whole.mp hsub, not_lt.mp hmax, hn.symm⟩
  · rintro (⟨rfl, rfl⟩ | ⟨neg, digits, hs, hmax, hn⟩)
    · rfl
    · unfold strtoul
      rw [subject_whole.mpr hs]
      simp only
      rw [if_neg (not_lt.mpr hmax), hn]

end CInteger
