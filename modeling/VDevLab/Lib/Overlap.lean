import Mathlib.Order.Bounds.Basic

/-!
# Slices, downward searches and overlaps

Python slices of a sequence; the loop that counts down until a test holds;
and the overlaps of two sequences, the ends of one that are starts of the
other. A sequence that lost its `d` first elements and gained new ones at the
end overlaps its old self in everything that was kept, and may overlap it in
more.
-/

variable {α : Type*}

/-! ## Slices -/

namespace PySeq

/-- A slice bound as a position in a sequence of length `n`: a negative one
counts from the end, and both are cut to the sequence. -/
def bound (n : Nat) (i : Int) : Nat := if i < 0 then (i + n).toNat else min i.toNat n

/-- `l[i:]`. -/
def sliceFrom (l : List α) (i : Int) : List α := l.drop (bound l.length i)

/-- `l[:i]`. -/
def sliceTo (l : List α) (i : Int) : List α := l.take (bound l.length i)

theorem sliceFrom_natCast (l : List α) (k : Nat) : sliceFrom l k = l.drop k := by
  unfold sliceFrom bound
  rw [if_neg (by omega), Int.toNat_natCast]
  by_cases hk : k ≤ l.length
  · rw [Nat.min_eq_left hk]
  · rw [Nat.min_eq_right (by omega), List.drop_length, List.drop_eq_nil_of_le (by omega)]

theorem sliceTo_natCast (l : List α) (k : Nat) : sliceTo l k = l.take k := by
  unfold sliceTo bound
  rw [if_neg (by omega), Int.toNat_natCast]
  by_cases hk : k ≤ l.length
  · rw [Nat.min_eq_left hk]
  · rw [Nat.min_eq_right (by omega), List.take_length, List.take_of_length_le (by omega)]

/-- The last `k` elements; at zero the slice is the whole sequence. -/
theorem sliceFrom_neg (l : List α) {k : Nat} (h0 : k ≠ 0) :
    sliceFrom l (-(k : Int)) = l.drop (l.length - k) := by
  unfold sliceFrom bound
  rw [if_pos (by omega)]
  congr 1
  omega

end PySeq

/-! ## Counting down -/

/-- `while k and not p(k): k -= 1`. -/
def searchDown (p : Nat → Bool) : Nat → Nat
  | 0 => 0
  | k + 1 => if p (k + 1) then k + 1 else searchDown p k

theorem searchDown_le (p : Nat → Bool) (n : Nat) : searchDown p n ≤ n := by
  induction n with
  | zero => exact Nat.le_refl 0
  | succ n ih =>
    rw [searchDown]
    split
    · exact Nat.le_refl _
    · omega

/-- The search ends at zero or where the test holds. -/
theorem searchDown_spec (p : Nat → Bool) (n : Nat) :
    searchDown p n = 0 ∨ p (searchDown p n) = true := by
  induction n with
  | zero => exact .inl rfl
  | succ n ih =>
    rw [searchDown]
    split
    · next hp => exact .inr hp
    · exact ih

/-- Nothing above the end of the search passes the test. -/
theorem le_searchDown {p : Nat → Bool} {n k : Nat} (hk : k ≤ n) (hp : p k = true) :
    k ≤ searchDown p n := by
  induction n with
  | zero => omega
  | succ n ih =>
    rw [searchDown]
    split
    · omega
    · next hnot =>
      have hne : k ≠ n + 1 := by
        intro heq
        exact hnot (heq ▸ hp)
      exact ih (by omega)

/-! ## Overlaps -/

/-- The last `k` elements of the one are the first `k` of the other. -/
structure Overlaps (before after : List α) (k : Nat) : Prop where
  le_before : k ≤ before.length
  le_after : k ≤ after.length
  eq : before.drop (before.length - k) = after.take k

theorem overlaps_zero (before after : List α) : Overlaps before after 0 :=
  ⟨Nat.zero_le _, Nat.zero_le _, by simp⟩

section Rotation

variable {before new : List α} {d : Nat}

/-- An overlap of what was kept and `j` of the new elements. -/
theorem overlaps_rotated (hd : d ≤ before.length) {j : Nat} :
    Overlaps before (before.drop d ++ new) (before.length - d + j) ↔
      j ≤ d ∧ j ≤ new.length ∧ before.drop (d - j) = before.drop d ++ new.take j := by
  have hlength : (before.drop d ++ new).length = before.length - d + new.length := by simp
  have htake : (before.drop d ++ new).take (before.length - d + j)
      = before.drop d ++ new.take j := by
    rw [List.take_append, List.length_drop, List.take_of_length_le (by simp)]
    congr 2
    omega
  constructor
  · intro h
    have hbefore := h.le_before
    have hafter := h.le_after
    rw [hlength] at hafter
    have hjd : j ≤ d := by omega
    refine ⟨hjd, by omega, ?_⟩
    have heq := h.eq
    rw [htake] at heq
    rw [← heq]
    congr 1
    omega
  · intro h
    obtain ⟨hjd, hjn, heq⟩ := h
    refine ⟨by omega, by rw [hlength]; omega, ?_⟩
    rw [htake, ← heq]
    congr 1
    omega

theorem overlaps_kept (hd : d ≤ before.length) :
    Overlaps before (before.drop d ++ new) (before.length - d) := by
  have h : Overlaps before (before.drop d ++ new) (before.length - d + 0) :=
    (overlaps_rotated hd).mpr ⟨Nat.zero_le d, Nat.zero_le _, by simp⟩
  exact h

/-- What lies behind such an overlap. -/
theorem drop_rotated (j : Nat) :
    (before.drop d ++ new).drop (before.length - d + j) = new.drop j := by
  rw [List.drop_append, List.length_drop, List.drop_eq_nil_of_le (by simp), List.nil_append]
  congr 1
  omega

end Rotation
