import VDevLab.Lib.Rounding
import VDevLab.Lib.JsonGrammar

/-!
# `float.__repr__`

The shortest decimal that rounds to the double and, of several, the nearest.
A decimal is the shorter the larger the exponent of its last place, so the
search goes down from an exponent no double reaches to the one at which the
double is a decimal itself. At each exponent only the two neighbours of the
double can be the nearest that rounds to it.
-/

namespace Binary64

open PyStr

/-! ## The shortest decimal -/

/-- `mant * 2 ^ exp / 10 ^ k` as a fraction. -/
def inUnits (mant : Nat) (exp k : Int) : Nat × Nat :=
  (mant * 2 ^ exp.toNat * 10 ^ (-k).toNat, 2 ^ (-exp).toNat * 10 ^ k.toNat)

/-- The nearest multiple of `10 ^ k` that rounds to the double. -/
def candidate (neg : Bool) (mant : Nat) (exp k : Int) (x : Binary64) : Option Nat :=
  let units := inUnits mant exp k
  let near := roundHalfEven units.1 units.2
  let far := if near = units.1 / units.2 then near + 1 else units.1 / units.2
  if ofDecimal neg near k = x then some near
  else if ofDecimal neg far k = x then some far
  else none

/-- The exponent at which the double is a decimal. -/
def lastPlace (exp : Int) : Int := min exp 0

/-- The search from the given number of places above the last one. -/
def search (neg : Bool) (mant : Nat) (exp : Int) (x : Binary64) : Nat → Nat × Int
  | 0 => ((inUnits mant exp (lastPlace exp)).1 / (inUnits mant exp (lastPlace exp)).2,
      lastPlace exp)
  | n + 1 =>
      match candidate neg mant exp (lastPlace exp + (n + 1 : Nat)) x with
      | some digits => (digits, lastPlace exp + (n + 1 : Nat))
      | none => search neg mant exp x n

/-- The digits and the exponent of the shortest decimal; doubles are below
`10 ^ 309`. -/
def shortest (neg : Bool) (mant : Nat) (exp : Int) (x : Binary64) : Nat × Int :=
  search neg mant exp x (309 - lastPlace exp).toNat

/-! ## Its layout -/

/-- The exponent part: a sign and at least two digits. -/
def exponentPart (e : Int) : PyStr :=
  ch 'e' :: (if e < 0 then ch '-' else ch '+') ::
    ((if e.natAbs < 10 then [digit 0] else []) ++ decimal e.natAbs)

/-- The digits with the point behind the first `point` of them. -/
def layout (digits : PyStr) (point : Int) : PyStr :=
  if point ≤ -4 ∨ 16 < point then
    digits.take 1 ++ ((if digits.drop 1 = [] then [] else ch '.' :: digits.drop 1)
      ++ exponentPart (point - 1))
  else if point ≤ 0 then
    digit 0 :: ch '.' :: (List.replicate (-point).toNat (digit 0) ++ digits)
  else if digits.length ≤ point then
    digits ++ List.replicate (point - digits.length).toNat (digit 0) ++ [ch '.', digit 0]
  else digits.take point.toNat ++ ch '.' :: digits.drop point.toNat

/-- `repr` of the magnitude of a finite double. -/
def reprAbs (neg : Bool) (mant : Nat) (exp : Int) (x : Binary64) : PyStr :=
  if mant = 0 then [digit 0, ch '.', digit 0]
  else
    let digits := decimal (shortest neg mant exp x).1
    layout digits (digits.length + (shortest neg mant exp x).2)

/-- A float in a JSON text: `repr`, and words for what is no number. -/
def dump (x : Binary64) : PyStr :=
  match x with
  | .nan => py "NaN"
  | .inf neg => Json.sign neg ++ py "Infinity"
  | .finite neg mant exp _ => Json.sign neg ++ reprAbs neg mant exp x

example : dump (ofDecimal false 1 (-1)) = py "0.1" := by decide +kernel

example : [ofDecimal true 1 23, ofDecimal false 123456 (-2)].map dump =
    [py "-1e+23", py "1234.56"] := by
  decide +kernel

/-! ## Reading it back -/

/-- The fraction is the number. -/
theorem inUnits_spec (mant : Nat) (exp k : Int) :
    ((inUnits mant exp k).1 : ℚ) * 10 ^ k = mant * 2 ^ exp * (inUnits mant exp k).2 := by
  have hsplit : ∀ (b : ℚ) (n : Int), b ≠ 0 → b ^ n.toNat = b ^ n * b ^ (-n).toNat := by
    intro b n hb
    rw [← zpow_natCast b n.toNat, ← zpow_natCast b (-n).toNat, ← zpow_add₀ hb]
    congr 1
    omega
  have hten := hsplit 10 k (by norm_num)
  simp only [inUnits, Nat.cast_mul, Nat.cast_pow, Nat.cast_ofNat]
  rw [hsplit 2 exp (by norm_num), hten]
  ring

/-- A decimal that is a double converts to it. -/
theorem ofDecimal_exact (neg : Bool) {digits mant : Nat} {k exp : Int} (hc : Canonical mant exp)
    (h : (digits : ℚ) * 10 ^ k = mant * 2 ^ exp) :
    ofDecimal neg digits k = .finite neg mant exp hc := by
  unfold ofDecimal
  split
  · next hzero =>
    apply ofRatio_exact neg one_ne_zero hc
    rw [← h, hzero]
    simp
  · split
    · next hk =>
      obtain ⟨n, rfl⟩ := Int.eq_ofNat_of_zero_le hk
      apply ofRatio_exact neg one_ne_zero hc
      rw [← h]
      simp
    · next hk =>
      obtain ⟨n, hn⟩ := Int.eq_ofNat_of_zero_le (by omega : 0 ≤ -k)
      apply ofRatio_exact neg (by positivity) hc
      rw [← h, hn, show k = -(n : Int) by omega]
      simp [div_eq_mul_inv]

theorem inUnits_dvd (mant : Nat) (exp : Int) :
    (inUnits mant exp (lastPlace exp)).2 ∣ (inUnits mant exp (lastPlace exp)).1 := by
  unfold inUnits lastPlace
  rcases le_or_gt 0 exp with hexp | hexp
  · rw [min_eq_right hexp, show (-exp).toNat = 0 by omega]
    exact one_dvd _
  · rw [min_eq_left hexp.le, show exp.toNat = 0 by omega, pow_zero, pow_zero, mul_one, mul_one,
      show (10 : Nat) = 2 * 5 by rfl, Nat.mul_pow]
    exact Dvd.dvd.mul_left (dvd_mul_right _ _) mant

/-- At its last place the double is a decimal. -/
theorem ofDecimal_lastPlace (neg : Bool) {mant : Nat} {exp : Int} (hc : Canonical mant exp) :
    ofDecimal neg ((inUnits mant exp (lastPlace exp)).1 / (inUnits mant exp (lastPlace exp)).2)
      (lastPlace exp) = .finite neg mant exp hc := by
  apply ofDecimal_exact
  have hspec := inUnits_spec mant exp (lastPlace exp)
  have hpos : (0 : ℚ) < (inUnits mant exp (lastPlace exp)).2 := by
    simp only [inUnits]
    positivity
  have hdiv : (((inUnits mant exp (lastPlace exp)).1 / (inUnits mant exp (lastPlace exp)).2 : Nat) : ℚ)
      * (inUnits mant exp (lastPlace exp)).2 = (inUnits mant exp (lastPlace exp)).1 := by
    exact_mod_cast Nat.div_mul_cancel (inUnits_dvd mant exp)
  rw [← hdiv] at hspec
  apply mul_right_cancel₀ hpos.ne'
  rw [← hspec]
  ring

theorem ofDecimal_candidate {neg : Bool} {mant digits : Nat} {exp k : Int} {x : Binary64}
    (h : candidate neg mant exp k x = some digits) : ofDecimal neg digits k = x := by
  simp only [candidate] at h
  generalize (if roundHalfEven (inUnits mant exp k).1 (inUnits mant exp k).2 =
      (inUnits mant exp k).1 / (inUnits mant exp k).2
    then roundHalfEven (inUnits mant exp k).1 (inUnits mant exp k).2 + 1
    else (inUnits mant exp k).1 / (inUnits mant exp k).2) = far at h
  split at h
  · next hnear =>
    cases h
    exact hnear
  · split at h
    · next hfar =>
      cases h
      exact hfar
    · cases h

theorem ofDecimal_search (neg : Bool) {mant : Nat} {exp : Int} (hc : Canonical mant exp)
    (n : Nat) : ofDecimal neg (search neg mant exp (.finite neg mant exp hc) n).1
      (search neg mant exp (.finite neg mant exp hc) n).2 = .finite neg mant exp hc := by
  induction n with
  | zero => exact ofDecimal_lastPlace neg hc
  | succ n ih =>
    rw [search]
    split
    · next hcandidate => exact ofDecimal_candidate hcandidate
    · exact ih

/-- The shortest decimal reads back. -/
theorem ofDecimal_shortest (neg : Bool) {mant : Nat} {exp : Int} (hc : Canonical mant exp) :
    ofDecimal neg (shortest neg mant exp (.finite neg mant exp hc)).1
      (shortest neg mant exp (.finite neg mant exp hc)).2 = .finite neg mant exp hc :=
  ofDecimal_search neg hc _

theorem ofDecimal_zero (neg : Bool) (k : Int) :
    ofDecimal neg 0 k = .finite neg 0 (-1074) (by decide) := by
  apply ofDecimal_exact
  simp

theorem shortest_ne_zero (neg : Bool) {mant : Nat} {exp : Int} (hc : Canonical mant exp)
    (hmant : mant ≠ 0) : (shortest neg mant exp (.finite neg mant exp hc)).1 ≠ 0 := by
  intro hzero
  have hshortest := ofDecimal_shortest neg hc
  rw [hzero, ofDecimal_zero, Binary64.finite.injEq] at hshortest
  exact hmant hshortest.2.1.symm

theorem roundHalfEven_mul_mul (num den : Nat) {c : Nat} (hc : 0 < c) :
    roundHalfEven (num * c) (den * c) = roundHalfEven num den := by
  have hlt : 2 * (num % den * c) < den * c ↔ 2 * (num % den) < den := by
    rw [← mul_assoc, Nat.mul_lt_mul_right hc]
  have hgt : den * c < 2 * (num % den * c) ↔ den < 2 * (num % den) := by
    rw [← mul_assoc, Nat.mul_lt_mul_right hc]
  simp only [roundHalfEven, Nat.mul_div_mul_right num den hc, Nat.mul_mod_mul_right, hlt, hgt]

theorem scale_mul_mul {num den c : Nat} (hden : den ≠ 0) (hc : c ≠ 0) :
    scale (num * c) (den * c) = scale num den := by
  by_cases hnum : num = 0
  · simp [scale, hnum]
  · obtain ⟨k, hk, hk', hscale⟩ := scale_spec hnum hden
    obtain ⟨j, hj, hj', hscale'⟩ := scale_spec (Nat.mul_ne_zero hnum hc) (Nat.mul_ne_zero hden hc)
    have hratio : ((num * c : Nat) : ℚ) / (den * c : Nat) = num / den := by
      push_cast
      exact mul_div_mul_right _ _ (by exact_mod_cast hc)
    rw [hratio] at hj hj'
    rw [hscale, hscale', binade_unique hj hj' hk hk']

/-- A fraction need not be in lowest terms. -/
theorem ofRatio_mul_mul (neg : Bool) {num den c : Nat} (hden : den ≠ 0) (hc : c ≠ 0) :
    ofRatio neg (num * c) (den * c) = ofRatio neg num den := by
  have hround : ∀ e : Int, (if 0 ≤ e then roundHalfEven (num * c) (den * c * 2 ^ e.toNat)
      else roundHalfEven (num * c * 2 ^ (-e).toNat) (den * c)) =
      if 0 ≤ e then roundHalfEven num (den * 2 ^ e.toNat)
      else roundHalfEven (num * 2 ^ (-e).toNat) den := by
    intro e
    rw [Nat.mul_right_comm den, Nat.mul_right_comm num,
      roundHalfEven_mul_mul _ _ (Nat.pos_of_ne_zero hc),
      roundHalfEven_mul_mul _ _ (Nat.pos_of_ne_zero hc)]
  simp only [ofRatio, scale_mul_mul hden hc, hround]

/-- A decimal without places behind the point, written with one. -/
theorem ofDecimal_point (neg : Bool) {digits n : Nat} (h : digits ≠ 0) :
    ofDecimal neg (digits * 10 ^ n * 10) (-1) = ofDecimal neg digits n := by
  have hne : digits * 10 ^ n * 10 ≠ 0 := by positivity
  rw [ofDecimal, if_neg hne, if_neg (by decide), ofDecimal, if_neg h, if_pos (Int.natCast_nonneg n),
    Int.toNat_natCast]
  have hmul : ofRatio neg (digits * 10 ^ n * 10) (1 * 10) = ofRatio neg (digits * 10 ^ n) 1 :=
    ofRatio_mul_mul neg one_ne_zero (by norm_num)
  rw [Nat.one_mul] at hmul
  exact hmul

end Binary64

namespace PyStr

/-! ## Digits -/

theorem natOfDigits_append (s t : PyStr) :
    natOfDigits (s ++ t) = natOfDigits s * 10 ^ t.length + natOfDigits t := by
  simp only [natOfDigits, List.map_append, List.reverse_append, Nat.ofDigits_append,
    List.length_reverse, List.length_map]
  ring

theorem natOfDigits_zeros (n : Nat) : natOfDigits (List.replicate n (digit 0)) = 0 := by
  induction n with
  | zero => rfl
  | succ n ih =>
    rw [List.replicate_succ', natOfDigits_append, ih]
    rfl

theorem isNumeral_cons {c : CodePoint} {s : PyStr} (hc : isDigit c = true) (hne : c ≠ digit 0)
    (hs : ∀ d ∈ s, isDigit d = true) : IsNumeral (c :: s) := by
  refine ⟨by simp, ?_, ?_⟩
  · rw [List.all_cons, hc, Bool.true_and, List.all_eq_true]
    exact hs
  · intro hhead
    exact absurd (Option.some.inj hhead) hne

/-- The digits of a number other than zero. -/
theorem decimal_ne_zero {n : Nat} (h : n ≠ 0) : ∃ c s, decimal n = c :: s ∧
    isDigit c = true ∧ c ≠ digit 0 ∧ ∀ d ∈ s, isDigit d = true := by
  obtain ⟨hne, hdigits, hzero⟩ := isNumeral_decimal n
  obtain ⟨c, s, hcs⟩ := List.exists_cons_of_ne_nil hne
  rw [hcs, List.all_cons, Bool.and_eq_true, List.all_eq_true] at hdigits
  refine ⟨c, s, hcs, hdigits.1, ?_, hdigits.2⟩
  rintro rfl
  have hsingle := hzero (by rw [hcs]; rfl)
  have hvalue := natOfDigits_decimal n
  rw [hsingle] at hvalue
  exact h hvalue.symm

end PyStr

namespace Binary64

open PyStr

/-! ## The text is a number -/

theorem exponentPart_spec (e : Int) : Json.Exponent (exponentPart e) e := by
  have hdigits : Json.Digits ((if e.natAbs < 10 then [digit 0] else []) ++ decimal e.natAbs) := by
    obtain ⟨hne, hall, -⟩ := isNumeral_decimal e.natAbs
    rw [List.all_eq_true] at hall
    refine ⟨by simp [hne], ?_⟩
    intro c hc
    rcases List.mem_append.mp hc with hc | hc
    · split at hc
      · rw [List.mem_singleton.mp hc]
        decide
      · cases hc
    · exact hall c hc
  have hvalue : natOfDigits ((if e.natAbs < 10 then [digit 0] else []) ++ decimal e.natAbs) =
      e.natAbs := by
    rw [natOfDigits_append, natOfDigits_decimal]
    split
    · show 0 * _ + _ = _
      rw [Nat.zero_mul, Nat.zero_add]
    · show 0 * _ + _ = _
      rw [Nat.zero_mul, Nat.zero_add]
  unfold exponentPart
  by_cases hneg : e < 0
  · rw [if_pos hneg]
    have hminus := Json.Exponent.minus (.inl rfl) hdigits
    rwa [hvalue, show -((e.natAbs : Nat) : Int) = e by omega] at hminus
  · rw [if_neg hneg]
    have hplus := Json.Exponent.plus (.inl rfl) hdigits
    rwa [hvalue, show ((e.natAbs : Nat) : Int) = e by omega] at hplus

theorem layout_number (numeral : PyStr → Prop) {neg : Bool} {n : Nat} {k : Int} {x : Binary64}
    (hn : n ≠ 0) (hx : ofDecimal neg n k = x) :
    Json.Number numeral (Json.sign neg ++ layout (decimal n) ((decimal n).length + k)) (.float x) := by
  have hvalue := natOfDigits_decimal n
  obtain ⟨c, s, hcs, hc, hne, hs⟩ := decimal_ne_zero hn
  rw [hcs] at hvalue ⊢
  have hdigits : ∀ d ∈ c :: s, isDigit d = true := List.forall_mem_cons.mpr ⟨hc, hs⟩
  have hzeros : ∀ m, ∀ d ∈ List.replicate m (digit 0), isDigit d = true := by
    intro m d hd
    rw [List.eq_of_mem_replicate hd]
    decide
  unfold layout
  split
  · -- one digit, the others behind the point, and an exponent
    have hwhole : IsNumeral [c] := isNumeral_cons hc hne (by simp)
    have hexponent := exponentPart_spec ((c :: s).length + k - 1)
    cases s with
    | nil =>
      have hnumber : Json.Number numeral (Json.sign neg ++ ([c] ++ _)) _ :=
        .exponent hwhole hexponent
      have hk : (([c] : PyStr).length : Int) + k - 1 = k := by
        simp
      rw [hvalue, hk, hx] at hnumber
      simpa [hk] using hnumber
    | cons d s =>
      have hfrac : Json.Digits (d :: s) := ⟨by simp, fun e he => hs e he⟩
      have hnumber : Json.Number numeral (Json.sign neg ++ ([c] ++ _)) _ :=
        .both hwhole hfrac hexponent
      have hk : (((c :: d :: s).length : Int) + k - 1) - (d :: s).length = k := by
        simp only [List.length_cons]
        push_cast
        ring
      have hdigit : natOfDigits ([c] ++ d :: s) = n := hvalue
      rw [hdigit, hk, hx] at hnumber
      simpa using hnumber
  · split
    · -- zeros between the point and the digits
      next hpoint =>
      have hfrac : Json.Digits
          (List.replicate (-((c :: s).length + k)).toNat (digit 0) ++ c :: s) := by
        refine ⟨by simp, ?_⟩
        intro d hd
        rcases List.mem_append.mp hd with hd | hd
        · exact hzeros _ d hd
        · exact hdigits d hd
      have hwhole : IsNumeral [digit 0] := by decide
      have hnumber : Json.Number numeral (Json.sign neg ++ ([digit 0] ++ _)) _ :=
        .fraction hwhole hfrac
      have hdigit : natOfDigits ([digit 0] ++
          (List.replicate (-((c :: s).length + k)).toNat (digit 0) ++ c :: s)) = n := by
        rw [natOfDigits_append, natOfDigits_append, natOfDigits_zeros, hvalue]
        show 0 * _ + (0 * _ + n) = n
        simp
      have hk : -((List.replicate (-((c :: s).length + k)).toNat (digit 0) ++ c :: s).length : Int)
          = k := by
        simp only [List.length_append, List.length_replicate, List.length_cons] at hpoint ⊢
        omega
      rw [hdigit, hk, hx] at hnumber
      exact hnumber
    · next hpoint =>
      split
      · -- zeros between the digits and the point
        next hlength =>
        obtain ⟨j, rfl⟩ := Int.eq_ofNat_of_zero_le (by omega : 0 ≤ k)
        have hwhole : IsNumeral (c :: (s ++ List.replicate j (digit 0))) := by
          refine isNumeral_cons hc hne ?_
          intro d hd
          rcases List.mem_append.mp hd with hd | hd
          · exact hs d hd
          · exact hzeros _ d hd
        have hfrac : Json.Digits [digit 0] := ⟨by simp, by simpa using isDigit_digit (by omega)⟩
        have hnumber : Json.Number numeral (Json.sign neg ++ (_ ++ _)) _ :=
          .fraction hwhole hfrac
        have hdigit : natOfDigits (c :: (s ++ List.replicate j (digit 0)) ++ [digit 0]) =
            n * 10 ^ j * 10 := by
          rw [natOfDigits_append, ← List.cons_append, natOfDigits_append, natOfDigits_zeros, hvalue,
            List.length_replicate]
          show (n * 10 ^ j + 0) * 10 + 0 = _
          ring
        have hj : (((c :: s).length : Int) + j - (c :: s).length).toNat = j := by
          omega
        rw [hdigit, List.length_singleton, Nat.cast_one, ofDecimal_point neg hn, hx] at hnumber
        rw [hj]
        simpa using hnumber
      · -- the point is between the digits
        next hlength =>
        obtain ⟨p, hp⟩ := Int.eq_ofNat_of_zero_le (by omega : 0 ≤ ((c :: s).length : Int) + k)
        obtain ⟨q, rfl⟩ : ∃ q, p = q + 1 := ⟨p - 1, by omega⟩
        rw [hp] at hlength ⊢
        rw [Int.toNat_natCast]
        have hwhole : IsNumeral ((c :: s).take (q + 1)) := by
          rw [List.take_succ_cons]
          exact isNumeral_cons hc hne fun d hd => hs d (List.mem_of_mem_take hd)
        have hfrac : Json.Digits ((c :: s).drop (q + 1)) := by
          refine ⟨?_, fun d hd => hdigits d (List.mem_of_mem_drop hd)⟩
          rw [ne_eq, List.drop_eq_nil_iff]
          omega
        have hnumber : Json.Number numeral (Json.sign neg ++ (_ ++ _)) _ :=
          .fraction hwhole hfrac
        have hk : -(((c :: s).drop (q + 1)).length : Int) = k := by
          rw [List.length_drop]
          omega
        rw [List.take_append_drop, hvalue, hk, hx] at hnumber
        exact hnumber

/-- A finite float is printed as a number that reads back. -/
theorem dump_number (numeral : PyStr → Prop) {x : Binary64} (h : x.isFinite = true) :
    Json.Number numeral (dump x) (.float x) := by
  cases x with
  | nan => cases h
  | inf neg => cases h
  | finite neg mant exp hc =>
    rw [dump, reprAbs]
    split
    · next hzero =>
      subst hzero
      have hexp : exp = -1074 := by
        rcases hc.2.2.2 with hlarge | hexp
        · omega
        · exact hexp
      subst hexp
      have hwhole : IsNumeral [digit 0] := by decide
      have hfrac : Json.Digits [digit 0] := ⟨by simp, by simpa using isDigit_digit (by omega)⟩
      have hnumber : Json.Number numeral (Json.sign neg ++ ([digit 0] ++ _)) _ :=
        .fraction hwhole hfrac
      have hdigit : natOfDigits ([digit 0] ++ [digit 0]) = 0 := by decide
      rw [hdigit, ofDecimal_zero] at hnumber
      exact hnumber
    · next hmant =>
      exact layout_number numeral (shortest_ne_zero neg hc hmant) (ofDecimal_shortest neg hc)

end Binary64
