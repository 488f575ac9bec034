import Mathlib.Data.List.Sort
import Mathlib.Order.Defs.LinearOrder

/-!
# Merging two streams by a stable sort

Elements with a key and a rank are ordered by key first and by rank among
equal keys. A stable sort of two streams that are each in order keeps every
stream as it was, and puts an element of the lower rank in front of one of
the higher exactly when its key is not larger.
-/

namespace Merge

section Order

variable {α κ : Type} [LinearOrder κ] (key : α → κ) (rank : α → Nat)

/-- By key, then by rank. -/
def Le (a b : α) : Prop := key a < key b ∨ (key a = key b ∧ rank a ≤ rank b)

instance : DecidableRel (Le key rank) :=
  fun a b => inferInstanceAs (Decidable (key a < key b ∨ (key a = key b ∧ rank a ≤ rank b)))

variable {key rank}

theorem Le.key_le {a b : α} (h : Le key rank a b) : key a ≤ key b := by
  rcases h with h | h
  · exact h.le
  · exact h.1.le

theorem le_of_key_le {a b : α} (h : key a ≤ key b) (hrank : rank a = rank b) : Le key rank a b := by
  rcases lt_or_eq_of_le h with h | h
  · exact .inl h
  · exact .inr ⟨h, hrank.le⟩

instance : Std.Total (Le key rank) where
  total a b := by
    rcases lt_trichotomy (key a) (key b) with h | h | h
    · exact .inl (.inl h)
    · rcases Nat.le_total (rank a) (rank b) with hr | hr
      · exact .inl (.inr ⟨h, hr⟩)
      · exact .inr (.inr ⟨h.symm, hr⟩)
    · exact .inr (.inl h)

instance : IsTrans α (Le key rank) where
  trans a b c hab hbc := by
    rcases hab with hab | ⟨hab, hr⟩
    · exact .inl (hab.trans_le hbc.key_le)
    · rcases hbc with hbc | ⟨hbc, hr'⟩
      · exact .inl (hab.trans_lt hbc)
      · exact .inr ⟨hab.trans hbc, hr.trans hr'⟩

/-- Where two elements of different rank stand in a list in order. -/
theorem before_iff {l : List α} (hl : l.Pairwise (Le key rank)) {i j : Nat} {a b : α}
    (ha : l[i]? = some a) (hb : l[j]? = some b) (hrank : rank a < rank b) :
    i < j ↔ key a ≤ key b := by
  obtain ⟨hi, rfl⟩ := List.getElem?_eq_some_iff.mp ha
  obtain ⟨hj, rfl⟩ := List.getElem?_eq_some_iff.mp hb
  constructor
  · intro hij
    exact (List.pairwise_iff_getElem.mp hl i j hi hj hij).key_le
  · intro hkey
    by_contra hij
    rcases Nat.lt_or_eq_of_le (Nat.not_lt.mp hij) with hlt | rfl
    · rcases List.pairwise_iff_getElem.mp hl j i hj hi hlt with h | ⟨-, h⟩
      · exact absurd hkey (not_le.mpr h)
      · omega
    · exact absurd hrank (Nat.lt_irrefl _)

end Order

/-- What is in order already keeps its order. -/
theorem filter_insertionSort {α : Type} (r : α → α → Prop) [DecidableRel r] {l : List α}
    (p : α → Bool) (h : (l.filter p).Pairwise r) : (l.insertionSort r).filter p = l.filter p := by
  have hsub : (l.filter p).Sublist ((l.insertionSort r).filter p) := by
    have := (List.sublist_insertionSort h List.filter_sublist).filter p
    simpa [List.filter_filter] using this
  refine (hsub.eq_of_length ?_).symm
  exact ((List.perm_insertionSort r l).filter p).length_eq.symm

end Merge
