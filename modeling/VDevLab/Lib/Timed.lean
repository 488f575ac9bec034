import Mathlib.Data.NNRat.Defs
import Mathlib.Tactic.Linarith
import VDevLab.Lib.Lts

/-!
# Systems in exact time

A system whose steps take no time and between whose steps any time may pass.
There is one timer, which some steps start; what a step needs of it is given
by the system.
-/

/-- A state, the time, and when the timer was started. -/
structure Timed (σ : Type*) where
  state : σ
  now : ℚ
  since : ℚ

namespace Lts

variable {σ : Type*} {ℓ : Type*}

/-- `M` in exact time from `origin` on. Step `l` starts the timer if `starts l`,
and may be taken in `s` when the timer has run for `d` if `ripe s l d`. -/
def timed (M : Lts σ ℓ) (starts : ℓ → Bool) (ripe : σ → ℓ → ℚ → Bool) (origin : ℚ) :
    Lts (Timed σ) (ℓ ⊕ ℚ≥0) where
  init s := M.init s.state ∧ s.now = origin ∧ s.since = origin
  step s
    | .inl l =>
        if ripe s.state l (s.now - s.since) then
          (M.step s.state l).map fun t => ⟨t, s.now, if starts l then s.now else s.since⟩
        else none
    | .inr d => some { s with now := s.now + d }

variable {M : Lts σ ℓ} {starts : ℓ → Bool} {ripe : σ → ℓ → ℚ → Bool} {origin : ℚ}

/-- A step of `M`, at a moment at which it may be taken. -/
theorem timed_step_inl {s t : Timed σ} {l : ℓ} :
    (M.timed starts ripe origin).step s (.inl l) = some t ↔
      ripe s.state l (s.now - s.since) = true ∧ M.step s.state l = some t.state ∧
        t.now = s.now ∧ t.since = if starts l then s.now else s.since := by
  simp only [timed]
  by_cases h : ripe s.state l (s.now - s.since) = true
  · rw [if_pos h, Option.map_eq_some_iff]
    constructor
    · intro hstep
      obtain ⟨u, hu, rfl⟩ := hstep
      exact ⟨h, hu, rfl, rfl⟩
    · intro hstep
      obtain ⟨-, hu, hnow, hsince⟩ := hstep
      obtain ⟨state, now, since⟩ := t
      cases hnow
      cases hsince
      exact ⟨state, hu, rfl⟩
  · rw [if_neg h]
    simp [h]

theorem timed_step_inr {s t : Timed σ} {d : ℚ≥0} :
    (M.timed starts ripe origin).step s (.inr d) = some t ↔ t = { s with now := s.now + d } := by
  simp only [timed, Option.some.injEq]
  exact eq_comm

/-- Time does not go back. -/
theorem timed_step_now {s t : Timed σ} {l : ℓ ⊕ ℚ≥0}
    (h : (M.timed starts ripe origin).step s l = some t) : s.now ≤ t.now := by
  cases l with
  | inl l => exact (timed_step_inl.mp h).2.2.1.ge
  | inr d =>
    rw [timed_step_inr.mp h]
    have hd : (0 : ℚ) ≤ d := d.2
    show s.now ≤ s.now + (d : ℚ)
    linarith

/-- What the steps of `M` preserve, time preserves too. -/
theorem timed_step_preserves {P : σ → Prop} (hP : ∀ s l t, P s → M.step s l = some t → P t)
    {s t : Timed σ} {l : ℓ ⊕ ℚ≥0} (h : (M.timed starts ripe origin).step s l = some t)
    (hs : P s.state) : P t.state := by
  cases l with
  | inl l => exact hP _ _ _ hs (timed_step_inl.mp h).2.1
  | inr d =>
    rw [timed_step_inr.mp h]
    exact hs

theorem Run.origin_le {tr s} (h : (M.timed starts ripe origin).Run tr s) : origin ≤ s.now := by
  induction h with
  | start hs => exact hs.2.1.ge
  | snoc hr hl ih => exact ih.trans (timed_step_now hl)

theorem Run.now_le {tr s} (h : (M.timed starts ripe origin).Run tr s) :
    ∀ {x}, Visited tr s x → x.now ≤ s.now := by
  induction h with
  | start =>
    intro x hx
    rcases hx with rfl | ⟨m, hm, -⟩
    · exact le_refl _
    · cases hm
  | @snoc tr s l t hr hl ih =>
    intro x hx
    rcases visited_concat (m := ⟨s, l, t⟩) hx with rfl | hx
    · exact le_refl _
    · exact (ih hx).trans (timed_step_now hl)

/-- What is preserved and held at some state holds at the end. -/
theorem Run.preserved {P : σ → Prop} (hP : ∀ s l t, P s → M.step s l = some t → P t) {tr s}
    (h : (M.timed starts ripe origin).Run tr s) :
    ∀ {x}, Visited tr s x → P x.state → P s.state := by
  induction h with
  | start =>
    intro x hx hp
    rcases hx with rfl | ⟨m, hm, -⟩
    · exact hp
    · cases hm
  | @snoc tr s l t hr hl ih =>
    intro x hx hp
    rcases visited_concat (m := ⟨s, l, t⟩) hx with rfl | hx
    · exact hp
    · exact timed_step_preserves hP hl (ih hx hp)

/-- What is preserved and held before the moment `d` holds in every state at
`d` or later. -/
theorem Run.settled {P : σ → Prop} (hP : ∀ s l t, P s → M.step s l = some t → P t) {d : ℚ} {tr s}
    (h : (M.timed starts ripe origin).Run tr s) :
    ∀ {x y}, Visited tr s x → P x.state → x.now < d → Visited tr s y → P y.state ∨ y.now < d := by
  induction h with
  | start =>
    intro x y hx hp hlt hy
    rcases hy with rfl | ⟨m, hm, -⟩
    · rcases hx with rfl | ⟨m, hm, -⟩
      · exact .inl hp
      · cases hm
    · cases hm
  | @snoc tr s l t hr hl ih =>
    intro x y hx hp hlt hy
    have hrun := hr.snoc hl
    rcases visited_concat (m := ⟨s, l, t⟩) hy with rfl | hy'
    · exact .inl (hrun.preserved hP hx hp)
    · rcases visited_concat (m := ⟨s, l, t⟩) hx with rfl | hx
      · exact .inr ((hrun.now_le hy).trans_lt hlt)
      · exact ih hx hp hlt hy'

end Lts
