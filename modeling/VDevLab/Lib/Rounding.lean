import Mathlib.Data.Rat.Floor
import Mathlib.Tactic.Linarith
import Mathlib.Tactic.Positivity
import Mathlib.Tactic.Ring
import Mathlib.Tactic.FieldSimp
import Mathlib.Algebra.Order.Field.Power
import VDevLab.Lib.Binary64

/-!
# What the conversions to double compute

A ratio that is a double converts to that double; in particular an integer
below `2^53` in size is its own float. An integer has a finite float iff it
is below `2^1024 - 2^970`, half a unit above the largest double.
-/

namespace Binary64

/-! ## Nearest integers -/

theorem roundHalfEven_mul (m : Nat) {den : Nat} (hden : 0 < den) :
    roundHalfEven (m * den) den = m := by
  simp [roundHalfEven, Nat.mul_div_cancel m hden, hden]

/-- The nearest integer is the quotient or its successor. -/
theorem roundHalfEven_cases (num den : Nat) :
    (roundHalfEven num den = num / den ∧ 2 * (num % den) ≤ den ∧
      (2 * (num % den) = den → num / den % 2 = 0)) ∨
    (roundHalfEven num den = num / den + 1 ∧ den ≤ 2 * (num % den)) := by
  unfold roundHalfEven
  simp only
  split
  · exact .inl ⟨rfl, by omega, by omega⟩
  · split
    · exact .inr ⟨rfl, by omega⟩
    · split
      · exact .inl ⟨rfl, by omega, fun _ => by assumption⟩
      · exact .inr ⟨rfl, by omega⟩

/-! ## The last place of a ratio -/

theorem log2_bounds {n : Nat} (h : n ≠ 0) :
    (2 : ℚ) ^ (Nat.log2 n : Int) ≤ n ∧ (n : ℚ) < 2 ^ ((Nat.log2 n : Int) + 1) := by
  constructor
  · rw [zpow_natCast]
    exact_mod_cast Nat.log2_self_le h
  · rw [← Nat.cast_one, ← Nat.cast_add, zpow_natCast]
    exact_mod_cast Nat.lt_log2_self

/-- The power of two below a ratio is unique. -/
theorem binade_unique {x : ℚ} {j k : Int} (hj : (2 : ℚ) ^ j ≤ x) (hj' : x < 2 ^ (j + 1))
    (hk : (2 : ℚ) ^ k ≤ x) (hk' : x < 2 ^ (k + 1)) : j = k := by
  have hlt : ∀ {a b : Int}, (2 : ℚ) ^ a ≤ x → x < 2 ^ (b + 1) → a ≤ b := by
    intro a b ha hb
    have := (zpow_lt_zpow_iff_right₀ (by norm_num : (1 : ℚ) < 2)).mp (ha.trans_lt hb)
    omega
  exact le_antisymm (hlt hj hk') (hlt hk hj')

/-- The comparison in `scale`, as one of rationals. -/
theorem fits_iff (num den : Nat) (k : Int) :
    (if 0 ≤ k then decide (den * 2 ^ k.toNat ≤ num) else decide (den ≤ num * 2 ^ (-k).toNat)) = true
      ↔ (2 : ℚ) ^ k * den ≤ num := by
  split
  · next hk =>
    obtain ⟨n, rfl⟩ := Int.eq_ofNat_of_zero_le hk
    rw [decide_eq_true_eq, Int.toNat_natCast, zpow_natCast, mul_comm]
    exact_mod_cast Iff.rfl
  · next hk =>
    obtain ⟨n, hn⟩ := Int.eq_ofNat_of_zero_le (by omega : 0 ≤ -k)
    rw [show k = -(n : Int) by omega, decide_eq_true_eq, neg_neg, Int.toNat_natCast, zpow_neg,
      zpow_natCast, inv_mul_le_iff₀ (by positivity), mul_comm num]
    exact_mod_cast Iff.rfl

theorem scale_spec {num den : Nat} (hnum : num ≠ 0) (hden : den ≠ 0) :
    ∃ k : Int, (2 : ℚ) ^ k ≤ num / den ∧ (num : ℚ) / den < 2 ^ (k + 1) ∧
      scale num den = max (k - 52) (-1074) := by
  obtain ⟨hn, hn'⟩ := log2_bounds hnum
  obtain ⟨hd, hd'⟩ := log2_bounds hden
  have hpos : (0 : ℚ) < den := by exact_mod_cast Nat.pos_of_ne_zero hden
  -- the quotient lies in one of two binades
  have hupper : (num : ℚ) / den < 2 ^ ((Nat.log2 num : Int) - Nat.log2 den + 1) := by
    rw [div_lt_iff₀ hpos]
    calc (num : ℚ) < 2 ^ ((Nat.log2 num : Int) + 1) := hn'
      _ = 2 ^ ((Nat.log2 num : Int) - Nat.log2 den + 1) * 2 ^ (Nat.log2 den : Int) := by
        rw [← zpow_add₀ two_ne_zero]
        congr 1
        ring
      _ ≤ 2 ^ ((Nat.log2 num : Int) - Nat.log2 den + 1) * den := by gcongr
  have hlower : (2 : ℚ) ^ ((Nat.log2 num : Int) - Nat.log2 den - 1) ≤ num / den := by
    rw [le_div_iff₀ hpos]
    calc (2 : ℚ) ^ ((Nat.log2 num : Int) - Nat.log2 den - 1) * den
        ≤ 2 ^ ((Nat.log2 num : Int) - Nat.log2 den - 1) * 2 ^ ((Nat.log2 den : Int) + 1) := by
          gcongr
      _ = 2 ^ (Nat.log2 num : Int) := by
        rw [← zpow_add₀ two_ne_zero]
        congr 1
        ring
      _ ≤ num := hn
  have hscale : scale num den = max ((if (if 0 ≤ (Nat.log2 num : Int) - Nat.log2 den
      then decide (den * 2 ^ ((Nat.log2 num : Int) - Nat.log2 den).toNat ≤ num)
      else decide (den ≤ num * 2 ^ (-((Nat.log2 num : Int) - Nat.log2 den)).toNat)) = true
      then (Nat.log2 num : Int) - Nat.log2 den
      else (Nat.log2 num : Int) - Nat.log2 den - 1) - 52) (-1074) := by
    rw [scale, if_neg hnum]
  by_cases hfits : (2 : ℚ) ^ ((Nat.log2 num : Int) - Nat.log2 den) * den ≤ num
  · refine ⟨_, ?_, hupper, ?_⟩
    · rw [le_div_iff₀ hpos]
      exact hfits
    · rw [hscale, if_pos ((fits_iff num den _).mpr hfits)]
  · refine ⟨_, hlower, ?_, ?_⟩
    · rw [div_lt_iff₀ hpos, sub_add_cancel]
      exact not_le.mp hfits
    · rw [hscale, if_neg (fun h => hfits ((fits_iff num den _).mp h))]

/-- The last place of a ratio that is a double is the exponent of that double. -/
theorem scale_of_canonical {num den m : Nat} {e : Int} (hden : den ≠ 0) (hc : Canonical m e)
    (h : (num : ℚ) / den = m * 2 ^ e) : scale num den = e := by
  obtain ⟨hm, he, -, hnormal⟩ := hc
  by_cases hnum : num = 0
  · have hm0 : m = 0 := by
      rw [hnum, Nat.cast_zero, zero_div] at h
      have hpow : (2 : ℚ) ^ e ≠ 0 := by positivity
      exact_mod_cast (mul_eq_zero.mp h.symm).resolve_right hpow
    rw [scale, if_pos hnum]
    omega
  obtain ⟨k, hk, hk', hscale⟩ := scale_spec hnum hden
  have hupper : (num : ℚ) / den < 2 ^ (52 + e + 1) := by
    have hm' : (m : ℚ) < 2 ^ (53 : Int) := by exact_mod_cast hm
    rw [h, show 52 + e + 1 = 53 + e by ring, zpow_add₀ two_ne_zero]
    gcongr
  by_cases hfull : 2 ^ 52 ≤ m
  · have hlower : (2 : ℚ) ^ (52 + e) ≤ num / den := by
      have hm' : (2 : ℚ) ^ (52 : Int) ≤ m := by exact_mod_cast hfull
      rw [h, zpow_add₀ two_ne_zero]
      gcongr
    have := binade_unique hk hk' hlower hupper
    omega
  · have hsub : e = -1074 := hnormal.resolve_left hfull
    have hm' : (m : ℚ) < 2 ^ (52 : Int) := by exact_mod_cast not_le.mp hfull
    have hlt : (2 : ℚ) ^ k < 2 ^ (52 + e) := by
      refine hk.trans_lt ?_
      rw [h, zpow_add₀ two_ne_zero]
      gcongr
    have := (zpow_lt_zpow_iff_right₀ (by norm_num : (1 : ℚ) < 2)).mp hlt
    omega

/-- A ratio that is a double converts to it. -/
theorem ofRatio_exact (neg : Bool) {num den m : Nat} {e : Int} (hden : den ≠ 0)
    (hc : Canonical m e) (h : (num : ℚ) / den = m * 2 ^ e) :
    ofRatio neg num den = .finite neg m e hc := by
  have hpos : (0 : ℚ) < den := by exact_mod_cast Nat.pos_of_ne_zero hden
  have hnum : (num : ℚ) = m * 2 ^ e * den := (div_eq_iff hpos.ne').mp h
  have hround : (if 0 ≤ e then roundHalfEven num (den * 2 ^ e.toNat)
      else roundHalfEven (num * 2 ^ (-e).toNat) den) = m := by
    split
    · next he =>
      obtain ⟨n, rfl⟩ := Int.eq_ofNat_of_zero_le he
      have hnat : num = m * (den * 2 ^ n) := by
        rw [zpow_natCast] at hnum
        have : (num : ℚ) = (m * (den * 2 ^ n) : Nat) := by
          push_cast
          rw [hnum]
          ring
        exact_mod_cast this
      rw [Int.toNat_natCast, hnat]
      exact roundHalfEven_mul m (by positivity)
    · next he =>
      obtain ⟨n, hn⟩ := Int.eq_ofNat_of_zero_le (by omega : 0 ≤ -e)
      have hnat : num * 2 ^ n = m * den := by
        have hpow : (2 : ℚ) ^ e * 2 ^ n = 1 := by
          rw [show e = -(n : Int) by omega, zpow_neg, zpow_natCast, inv_mul_cancel₀ (by positivity)]
        have : ((num * 2 ^ n : Nat) : ℚ) = (m * den : Nat) := by
          push_cast
          rw [hnum, mul_assoc, mul_comm (den : ℚ), ← mul_assoc, mul_assoc (m : ℚ), hpow, mul_one]
        exact_mod_cast this
      rw [hn, Int.toNat_natCast, hnat]
      exact roundHalfEven_mul m (Nat.pos_of_ne_zero hden)
  simp only [ofRatio, scale_of_canonical hden hc h, hround, dif_pos hc]

/-! ## Integers -/

/-- An integer below `2^53` in size is its own float. -/
theorem ofInt_exact {n : Int} (h : n.natAbs < 2 ^ 53) :
    (ofInt n).isFinite = true ∧ (ofInt n).toRat = n := by
  have hsign : (if decide (n < 0) = true then (-1 : ℚ) else 1) * n.natAbs = n := by
    by_cases hneg : n < 0
    · rw [if_pos (by simpa using hneg), Nat.cast_natAbs, abs_of_neg hneg]
      push_cast
      ring
    · rw [if_neg (by simpa using hneg), Nat.cast_natAbs, abs_of_nonneg (not_lt.mp hneg), one_mul]
  by_cases h0 : n.natAbs = 0
  · have hc : Canonical 0 (-1074) := by decide
    have hofInt : ofInt n = .finite (n < 0) 0 (-1074) hc := by
      rw [ofInt, h0]
      exact ofRatio_exact _ one_ne_zero hc (by simp)
    rw [hofInt]
    refine ⟨rfl, ?_⟩
    rw [Int.natAbs_eq_zero.mp h0]
    simp [toRat]
  · -- the significand is shifted up to 53 bits
    have hlog : Nat.log2 n.natAbs ≤ 52 := by
      have := (Nat.log2_lt h0).mpr h
      omega
    have hbounds := And.intro (Nat.log2_self_le h0) (Nat.lt_log2_self (n := n.natAbs))
    have hshift : 2 ^ Nat.log2 n.natAbs * 2 ^ (52 - Nat.log2 n.natAbs) = 2 ^ 52 := by
      rw [← Nat.pow_add]
      congr 1
      omega
    have hc : Canonical (n.natAbs * 2 ^ (52 - Nat.log2 n.natAbs)) (Nat.log2 n.natAbs - 52) := by
      have hlow := Nat.mul_le_mul_right (2 ^ (52 - Nat.log2 n.natAbs)) hbounds.1
      have hhigh := Nat.mul_lt_mul_of_pos_right hbounds.2
        (by positivity : 0 < 2 ^ (52 - Nat.log2 n.natAbs))
      rw [hshift] at hlow
      rw [Nat.pow_succ, Nat.mul_right_comm, hshift] at hhigh
      exact ⟨by omega, by omega, by omega, .inl hlow⟩
    have hvalue : ((n.natAbs * 2 ^ (52 - Nat.log2 n.natAbs) : Nat) : ℚ)
        * 2 ^ ((Nat.log2 n.natAbs : Int) - 52) = n.natAbs := by
      push_cast
      rw [show (Nat.log2 n.natAbs : Int) - 52 = -((52 - Nat.log2 n.natAbs : Nat) : Int) by omega,
        zpow_neg, zpow_natCast, mul_assoc, mul_inv_cancel₀ (by positivity), mul_one]
    have hofInt : ofInt n = .finite (n < 0) _ _ hc :=
      ofRatio_exact _ one_ne_zero hc (by rw [hvalue, Nat.cast_one, div_one])
    rw [hofInt]
    refine ⟨rfl, ?_⟩
    rw [toRat, mul_assoc, hvalue]
    exact hsign

theorem scale_nat {n : Nat} (h : n ≠ 0) : scale n 1 = Nat.log2 n - 52 := by
  obtain ⟨k, hk, hk', hscale⟩ := scale_spec h one_ne_zero
  obtain ⟨hlow, hhigh⟩ := log2_bounds h
  rw [Nat.cast_one, div_one] at hk hk'
  have := binade_unique hk hk' hlow hhigh
  omega

/-- When a significand with a carry fits. -/
theorem finite_of_significand {neg : Bool} {num den m : Nat} {e : Int} (hscale : scale num den = e)
    (hround : (if 0 ≤ e then roundHalfEven num (den * 2 ^ e.toNat)
      else roundHalfEven (num * 2 ^ (-e).toNat) den) = m)
    (hlow : 2 ^ 52 ≤ m) (hhigh : m ≤ 2 ^ 53) (he : -1074 ≤ e) :
    (ofRatio neg num den).isFinite = true ↔ (m < 2 ^ 53 ∧ e ≤ 971) ∨ e ≤ 970 := by
  simp only [ofRatio, hscale, hround]
  split
  · next hc =>
    have := hc.2.2.1
    simp only [isFinite, true_iff]
    exact .inl ⟨hc.1, this⟩
  · next hc =>
    have hout : ¬ (m < 2 ^ 53 ∧ e ≤ 971) := fun h => hc ⟨h.1, he, h.2, .inl hlow⟩
    split
    · next hc' =>
      have := hc'.2.2.1
      simp only [isFinite, true_iff]
      exact .inr (by omega)
    · next hc' =>
      simp only [isFinite, Bool.false_eq_true, false_iff]
      intro h
      rcases h with h | h
      · exact hout h
      · refine hc' ⟨by omega, by omega, by omega, .inl ?_⟩
        omega

/-- **Which integers have a float**: those that round to a double. -/
theorem ofInt_isFinite_iff {n : Int} :
    (ofInt n).isFinite = true ↔ n.natAbs < 2 ^ 1024 - 2 ^ 970 := by
  by_cases hsmall : n.natAbs < 2 ^ 53
  · exact ⟨fun _ => by omega, fun _ => (ofInt_exact hsmall).1⟩
  have h0 : n.natAbs ≠ 0 := by omega
  have hlog : 53 ≤ Nat.log2 n.natAbs := by
    by_contra hlt
    exact hsmall ((Nat.log2_lt h0).mp (by omega))
  obtain ⟨j, hj⟩ := Nat.exists_eq_add_of_le hlog
  -- the last place is `2 ^ (j + 1)`
  have hscale : scale n.natAbs 1 = ((j + 1 : Nat) : Int) := by
    rw [scale_nat h0, hj]
    omega
  have hround : (if 0 ≤ ((j + 1 : Nat) : Int) then
      roundHalfEven n.natAbs (1 * 2 ^ ((j + 1 : Nat) : Int).toNat)
      else roundHalfEven (n.natAbs * 2 ^ (-((j + 1 : Nat) : Int)).toNat) 1)
      = roundHalfEven n.natAbs (2 ^ (j + 1)) := by
    rw [if_pos (by omega), Int.toNat_natCast, one_mul]
  have hlow : 2 ^ 52 * 2 ^ (j + 1) ≤ n.natAbs := by
    have := Nat.log2_self_le h0
    rw [← Nat.pow_add, show 52 + (j + 1) = 53 + j by omega, ← hj]
    exact this
  have hhigh : n.natAbs < 2 ^ 53 * 2 ^ (j + 1) := by
    have := Nat.lt_log2_self (n := n.natAbs)
    rw [← Nat.pow_add, show 53 + (j + 1) = 53 + j + 1 by omega, ← hj]
    exact this
  have hq : 2 ^ 52 ≤ n.natAbs / 2 ^ (j + 1) ∧ n.natAbs / 2 ^ (j + 1) < 2 ^ 53 :=
    ⟨(Nat.le_div_iff_mul_le (by positivity)).mpr hlow, Nat.div_lt_of_lt_mul (by rwa [mul_comm])⟩
  have hm : 2 ^ 52 ≤ roundHalfEven n.natAbs (2 ^ (j + 1)) ∧
      roundHalfEven n.natAbs (2 ^ (j + 1)) ≤ 2 ^ 53 := by
    rcases roundHalfEven_cases n.natAbs (2 ^ (j + 1)) with ⟨h, -⟩ | ⟨h, -⟩ <;> omega
  rw [ofInt, finite_of_significand hscale hround hm.1 hm.2 (by omega)]
  have hdiv := Nat.div_add_mod n.natAbs (2 ^ (j + 1))
  have hpow : (2 : Nat) ^ 1024 = 2 ^ 54 * 2 ^ 970 := by rw [← Nat.pow_add]
  rcases Nat.lt_trichotomy j 970 with hj970 | hj970 | hj970
  · -- far below the largest double
    have : (2 : Nat) ^ (j + 1) ≤ 2 ^ 970 := by
      gcongr
      · norm_num
      · omega
    refine ⟨fun _ => ?_, fun _ => .inr (by omega)⟩
    omega
  · -- the binade of the largest double: the quotient is at most `2^53 - 1`
    have h970 : (2 : Nat) ^ 970 = 2 ^ j := by rw [hj970]
    rw [Nat.pow_succ 2 j] at hdiv hq ⊢
    rw [h970] at hpow ⊢
    have hcases := roundHalfEven_cases n.natAbs (2 ^ j * 2)
    have hmod := Nat.mod_lt n.natAbs (by positivity : 0 < 2 ^ j * 2)
    generalize (2 : Nat) ^ j = p at hdiv hq hpow hcases hmod ⊢
    by_cases hlast : n.natAbs / (p * 2) = 2 ^ 53 - 1
    · rw [hlast] at hdiv hcases
      rcases hcases with ⟨hr, hle, htie⟩ | ⟨hr, hge⟩
      · have hstrict : n.natAbs % (p * 2) < p := by
          have : 2 * (n.natAbs % (p * 2)) ≠ p * 2 := by
            intro h
            have := htie h
            omega
          omega
        rw [hr]
        exact ⟨fun _ => by omega, fun _ => .inl ⟨by omega, by omega⟩⟩
      · rw [hr]
        exact ⟨fun h => by omega, fun h => by omega⟩
    · have hmul : p * 2 * (n.natAbs / (p * 2)) ≤ p * 2 * (2 ^ 53 - 2) :=
        Nat.mul_le_mul_left _ (by omega)
      refine ⟨fun _ => by omega, fun _ => .inl ⟨?_, by omega⟩⟩
      rcases hcases with ⟨hr, -⟩ | ⟨hr, -⟩ <;> omega
  · have : (2 : Nat) ^ 972 ≤ 2 ^ (j + 1) := by
      gcongr
      · norm_num
      · omega
    have hpow' : (2 : Nat) ^ 972 = 2 ^ 2 * 2 ^ 970 := by rw [← Nat.pow_add]
    constructor
    · rintro (⟨-, h⟩ | h) <;> omega
    · intro hlt
      omega

end Binary64
