import VDevLab.Lib.PyStr

/-!
# IEEE 754 double precision

The values of a C `double` or a Python `float`: a finite number is a sign, a
53-bit significand and an exponent in canonical form, so two finite numbers
are the same double iff they are the same value of this type. Conversions
from decimal and to fixed-point decimal round to nearest, ties to even, and
are exact integer arithmetic before the rounding.
-/

namespace Binary64

/-- The canonical significand and exponent of a finite double. -/
def Canonical (mant : Nat) (exp : Int) : Prop :=
  mant < 2 ^ 53 ∧ -1074 ≤ exp ∧ exp ≤ 971 ∧ (2 ^ 52 ≤ mant ∨ exp = -1074)

instance (mant : Nat) (exp : Int) : Decidable (Canonical mant exp) :=
  inferInstanceAs (Decidable (_ ∧ _ ∧ _ ∧ _))

end Binary64

/-- A double. -/
inductive Binary64
  | nan
  | inf (neg : Bool)
  | finite (neg : Bool) (mant : Nat) (exp : Int) (canonical : Binary64.Canonical mant exp)
  deriving DecidableEq

namespace Binary64

/-- `isfinite`. -/
def isFinite : Binary64 → Bool
  | .finite .. => true
  | _ => false

/-- `num / den` to the nearest integer, ties to even. -/
def roundHalfEven (num den : Nat) : Nat :=
  let q := num / den
  let r := num % den
  if 2 * r < den then q
  else if den < 2 * r then q + 1
  else if q % 2 = 0 then q else q + 1

/-- Whether a double is at least the integer `n`. -/
def geNat : Binary64 → Nat → Bool
  | .nan, _ => false
  | .inf neg, _ => !neg
  | .finite neg mant exp _, n =>
      if neg then mant = 0 && n = 0
      else if 0 ≤ exp then n ≤ mant * 2 ^ exp.toNat
      else n * 2 ^ (-exp).toNat ≤ mant

/-- The exponent of the last place of `num / den`, as if there were no
largest double; the least one for zero. -/
def scale (num den : Nat) : Int :=
  if num = 0 then -1074
  else
    let k : Int := (Nat.log2 num : Int) - Nat.log2 den
    let fits : Bool := if 0 ≤ k then den * 2 ^ k.toNat ≤ num else den ≤ num * 2 ^ (-k).toNat
    max ((if fits then k else k - 1) - 52) (-1074)

/-- The double nearest to `num / den`; infinity beyond the largest. -/
def ofRatio (neg : Bool) (num den : Nat) : Binary64 :=
  let e := scale num den
  let m := if 0 ≤ e then roundHalfEven num (den * 2 ^ e.toNat)
    else roundHalfEven (num * 2 ^ (-e).toNat) den
  -- rounding up can reach the next power of two
  if hc : Canonical m e then .finite neg m e hc
  else if hc : Canonical (m / 2) (e + 1) then .finite neg (m / 2) (e + 1) hc
  else .inf neg

/-- The double nearest to `± digits * 10 ^ exp10`. -/
def ofDecimal (neg : Bool) (digits : Nat) (exp10 : Int) : Binary64 :=
  if digits = 0 then ofRatio neg 0 1
  else if 0 ≤ exp10 then ofRatio neg (digits * 10 ^ exp10.toNat) 1
  else ofRatio neg digits (10 ^ (-exp10).toNat)

/-- The double nearest to an integer; infinity beyond the largest. -/
def ofInt (n : Int) : Binary64 := ofRatio (n < 0) n.natAbs 1

/-- The double nearest to a number. -/
def ofRat (x : ℚ) : Binary64 := ofRatio (x < 0) x.num.natAbs x.den

/-- The number that a finite double is. -/
def toRat : Binary64 → ℚ
  | .finite neg mant exp _ => (if neg then -1 else 1) * mant * (2 : ℚ) ^ exp
  | _ => 0

/-- `|x| * 10 ^ places` to the nearest integer, ties to even. -/
def scaledAbs (mant : Nat) (exp : Int) (places : Nat) : Nat :=
  if 0 ≤ exp then mant * 2 ^ exp.toNat * 10 ^ places
  else roundHalfEven (mant * 10 ^ places) (2 ^ (-exp).toNat)

/-- The last `places` digits of `n`, with leading zeros. -/
def padded : Nat → Nat → PyStr
  | 0, _ => []
  | places + 1, n => padded places (n / 10) ++ [PyStr.digit (n % 10)]

/-- `%.{places}f` of a finite double with the given parts. -/
def fixed (neg : Bool) (mant : Nat) (exp : Int) (places : Nat) : PyStr :=
  let n := scaledAbs mant exp places
  (if neg then py "-" else []) ++ PyStr.decimal (n / 10 ^ places) ++ py "." ++ padded places n

theorem padded_isDigit (places n : Nat) : ∀ c ∈ padded places n, PyStr.isDigit c = true := by
  induction places generalizing n with
  | zero => simp [padded]
  | succ places ih =>
    intro c hc
    rw [padded, List.mem_append, List.mem_singleton] at hc
    rcases hc with hc | rfl
    · exact ih (n / 10) c hc
    · exact PyStr.isDigit_digit (Nat.mod_lt n (by omega))

theorem length_padded (places n : Nat) : (padded places n).length = places := by
  induction places generalizing n with
  | zero => rfl
  | succ places ih => rw [padded, List.length_append, ih, List.length_singleton]

end Binary64
