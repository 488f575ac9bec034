import VDevLab.Lib.Critical

/-!
# Shared state that is also read without its lock

Parties outside a section may read what a lock guards without taking it. What
they see of it can change in the middle of a section, so to them a section is
not one step at its last lock. It is one step at the statement behind which
nothing that they can see changes any more: `Settled`.

In front of that statement they see the data as they were, or something that
is just as good: `near s a` says that what is seen in `s` may be seen while
the state is `a`. A section is `Steady` when it shows nothing else.

The atomic state of `Glanced` has every section done at that statement.
`Glanced.advance` is the step rule.
-/

open Critical

/-- What is seen of the data of each lock without taking it. -/
structure Glances {Λ σ : Type*} (G : Guards Λ σ) where
  seen : Λ → σ → σ → Prop
  near : Λ → σ → σ → Prop
  seen_equiv : ∀ l, Equivalence (seen l)
  seen_of_same : ∀ {l s t}, G.same l s t → seen l s t
  near_of_seen : ∀ {l s a}, seen l s a → near l s a
  near_congr : ∀ {l s t a b}, G.same l s t → G.same l a b → near l s a → near l t b

namespace Glances

variable {Λ σ ρ : Type*} {G : Guards Λ σ} (V : Glances G)

/-- Nothing that is seen changes any more. -/
def Settled : Critical Λ σ ρ → σ → Prop
  | .done _, _ => True
  | .lock _ k, s => Settled k s
  | .unlock _ k, s => Settled k s
  | .act f k, s => (∀ l, V.seen l s (f s)) ∧ Settled (k s) (f s)

/-- Until it is settled the section shows what may be seen while the state is
`a`, and gives no lock back. -/
def Steady (a : σ) : Critical Λ σ ρ → σ → Prop
  | .done _, _ => True
  | .lock _ k, s => Steady a k s
  | .unlock _ k, s => V.Settled k s
  | .act f k, s => V.Settled (k s) (f s) ∨ (∀ l, V.near l (f s) a) ∧ Steady a (k s) (f s)

variable {V} {held : Λ → Prop} {p : Critical Λ σ ρ} {a b s t : σ}

theorem seen_trans {l : Λ} (h : V.seen l s t) (h' : V.seen l t a) : V.seen l s a :=
  (V.seen_equiv l).trans h h'

/-- A look does not tell two states apart that agree. -/
theorem seen_congr {l : Λ} (hs : G.same l s t) (ha : G.same l a b) (h : V.seen l s a) :
    V.seen l t b :=
  seen_trans (V.seen_of_same (Guards.symm hs)) (seen_trans h (V.seen_of_same ha))

theorem Settled.steady (h : V.Settled p s) : V.Steady a p s := by
  induction p generalizing s with
  | done r => trivial
  | lock l k ih => exact ih h
  | unlock l k _ => exact h
  | act f k _ => exact .inl h.2

/-- What is seen at the end is seen already. -/
theorem Settled.seen_solo (h : V.Settled p s) (l : Λ) : V.seen l s (p.solo s).1 := by
  induction p generalizing s with
  | done r => exact (V.seen_equiv l).refl s
  | lock m k ih => exact ih h
  | unlock m k ih => exact ih h
  | act f k ih => exact seen_trans (h.1 l) (ih s h.2)

/-- Whether a body is settled depends on what its locks guard. -/
theorem Settled.congr (hp : G.Body held p) (hst : ∀ l, held l → G.same l s t)
    (h : V.Settled p s) : V.Settled p t := by
  induction p generalizing held s t with
  | done r => trivial
  | lock l k => exact hp.elim
  | unlock l k ih => exact ih hp.2 (fun m hm => hst m hm.1) h
  | act f k ih =>
    obtain ⟨hk, hf⟩ := hp.2.1 s t hst
    refine ⟨fun l => ?_, ?_⟩
    · by_cases hl : held l
      · exact seen_congr (hst l hl) (hf l hl) (h.1 l)
      · exact V.seen_of_same (hp.1 l hl t)
    · rw [← hk]
      exact ih s (hp.2.2 s) hf h.2

/-- So does what it shows, where it holds the locks. -/
theorem Steady.congr (hp : G.Body held p) (hst : ∀ l, held l → G.same l s t)
    (hab : ∀ l, held l → G.same l a b) (hnear : ∀ l, ¬ held l → V.near l t b)
    (h : V.Steady a p s) : V.Steady b p t := by
  induction p generalizing s t with
  | done r => trivial
  | lock l k => exact hp.elim
  | unlock l k => exact Settled.congr hp.2 (fun m hm => hst m hm.1) h
  | act f k ih =>
    obtain ⟨hk, hf⟩ := hp.2.1 s t hst
    rcases h with h | ⟨hshown, h⟩
    · refine .inl ?_
      rw [← hk]
      exact Settled.congr (hp.2.2 s) hf h
    · have hframe : ∀ l, ¬ held l → V.near l (f t) b := fun l hl =>
        V.near_congr (hp.1 l hl t) (G.refl l b) (hnear l hl)
      refine .inr ⟨fun l => ?_, ?_⟩
      · by_cases hl : held l
        · exact V.near_congr (hf l hl) (hab l hl) (hshown l)
        · exact hframe l hl
      · rw [← hk]
        exact ih s (hp.2.2 s) hf hframe h

end Glances

/-! ## One party -/

namespace Glances

variable {Λ σ ρ : Type*} {G : Guards Λ σ} (V : Glances G)

/-- The section has its locks and has taken effect. -/
def Effective (p : Critical Λ σ ρ) (s : σ) : Prop := p.locking = false ∧ V.Settled p s

/-- How far a section that does `work` has come: it still takes its locks, it
has yet to take effect, or the atomic state has what it leaves. -/
inductive Stage (held : Λ → Prop) (s a : σ) (work : σ → σ × ρ) : Critical Λ σ ρ → Prop
  | before {p} : p.locking = true → (∀ l, held l → G.same l s a) → (∀ t, p.solo t = work t) →
      (∀ b, V.Steady b p b) → Stage held s a work p
  | pending {p q} : p.locking = false → ¬ V.Settled p s → V.Steady a p s →
      G.Body held q → (∀ t, q.solo t = work t) → (p.solo s).2 = (q.solo a).2 →
      (∀ l, held l → G.same l (p.solo s).1 (q.solo a).1) → Stage held s a work p
  | effective {p} : V.Effective p s → (∀ l, held l → G.same l (p.solo s).1 a) →
      Stage held s a work p

variable {V} {held : Λ → Prop} {p : Critical Λ σ ρ} {a b s t : σ} {work : σ → σ × ρ}

theorem Effective.congr (hp : G.Disciplined held p) (hst : ∀ l, held l → G.same l s t) :
    V.Effective p s ↔ V.Effective p t := by
  refine ⟨fun h => ?_, fun h => ?_⟩
  · exact ⟨h.1, h.2.congr (hp.body h.1) hst⟩
  · exact ⟨h.1, h.2.congr (hp.body h.1) fun l hl => Guards.symm (hst l hl)⟩

/-- What the others do leaves a section where it is. -/
theorem Stage.congr (hp : G.Disciplined held p) (hst : ∀ l, held l → G.same l s t)
    (hab : ∀ l, held l → G.same l a b) (hnear : ∀ l, V.near l t b)
    (h : V.Stage held s a work p) : V.Stage held t b work p := by
  cases h with
  | before hlock hsame hwork hsteady =>
    refine .before hlock (fun l hl => ?_) hwork hsteady
    exact Guards.trans (Guards.symm (hst l hl)) (Guards.trans (hsame l hl) (hab l hl))
  | pending hlock hopen hsteady hbody hwork hres hsame =>
    have hp' := hp.body hlock
    obtain ⟨hps, hpsame⟩ := hp'.solo_same hst
    obtain ⟨hqs, hqsame⟩ := hbody.solo_same hab
    refine .pending hlock (fun hset => hopen ?_) ?_ hbody hwork ?_ fun l hl => ?_
    · exact hset.congr hp' fun l hl => Guards.symm (hst l hl)
    · exact hsteady.congr hp' hst hab fun l _ => hnear l
    · rw [← hps, hres, hqs]
    · exact Guards.trans (Guards.symm (hpsame l hl)) (Guards.trans (hsame l hl) (hqsame l hl))
  | effective heff hsame =>
    have hpsame := ((hp.body heff.1).solo_same hst).2
    refine .effective ((Effective.congr hp hst).mp heff) fun l hl => ?_
    exact Guards.trans (Guards.symm (hpsame l hl)) (Guards.trans (hsame l hl) (hab l hl))

end Glances

/-! ## Many parties -/

open Glances

/-- The state `s` and the atomic state `a`: where nobody holds a lock they
agree, and every look may be one at `a`. -/
structure Glanced {Λ σ ρ : Type*} {G : Guards Λ σ} (V : Glances G) (owner : Λ → Option Nat)
    (s a : σ) (inside : Nat → Option (Critical Λ σ ρ)) (work : Nat → σ → σ × ρ) : Prop where
  near : ∀ l, V.near l s a
  free : ∀ l, owner l = none → G.same l s a
  stage : ∀ i p, inside i = some p → V.Stage (fun l => owner l = some i) s a (work i) p

namespace Glanced

variable {Λ σ ρ : Type*} {G : Guards Λ σ} {V : Glances G} {owner owner' : Λ → Option Nat}
  {s s' a a' c : σ} {inside : Nat → Option (Critical Λ σ ρ)} {work : Nat → σ → σ × ρ} {i j : Nat}
  {p p' q : Critical Λ σ ρ}

theorem idle (V : Glances G) (s : σ) (work : Nat → σ → σ × ρ) :
    Glanced V (fun _ => none) s s (fun _ => (none : Option (Critical Λ σ ρ))) work where
  near l := V.near_of_seen ((V.seen_equiv l).refl s)
  free l _ := G.refl l s
  stage _ _ h := by simp at h

/-- A party begins a section, which shows nothing but its effect. -/
theorem enter (h : Glanced V owner s a inside work) (hi : ∀ l, owner l ≠ some i)
    (hlock : p.locking = true) (hsteady : ∀ b, V.Steady b p b) :
    Glanced V owner s a (Function.update inside i (some p)) (Function.update work i p.solo) := by
  refine ⟨h.near, h.free, fun j q hj => ?_⟩
  rcases update_eq_some.mp hj with ⟨rfl, hq⟩ | ⟨hij, hj⟩
  · cases hq
    rw [Function.update_self]
    exact .before hlock (fun l hl => absurd hl (hi l)) (fun _ => rfl) hsteady
  · rw [Function.update_of_ne hij]
    exact h.stage j q hj

theorem leave (h : Glanced V owner s a inside work) :
    Glanced V owner s a (Function.update inside i none) work := by
  refine ⟨h.near, h.free, fun j q hj => ?_⟩
  rcases update_eq_some.mp hj with ⟨-, hq⟩ | ⟨-, hj⟩
  · cases hq
  · exact h.stage j q hj

section Advance

variable [DecidableEq Λ] (hc : Coherent G owner s c inside) (hi : inside i = some p)
  (hadv : p.advance i owner s = some (s', owner', p'))

include hc hi hadv

/-- The others see what they saw of a section that goes on. -/
theorem effective_other (hij : j ≠ i) (hj : inside j = some q) :
    V.Effective q s ↔ V.Effective q s' := by
  refine Effective.congr (hc.disciplined j q hj) fun l hl => ?_
  refine advance_frame hadv (hc.disciplined i p hi) fun hl' => hij ?_
  exact Coherent.exclusive hl hl'

/-- One party moves; the rest of the invariant is about the others. -/
theorem moved (h : Glanced V owner s a inside work)
    (ha : ∀ l, owner' l ≠ some i → G.same l a a') (hnear : ∀ l, V.near l s' a')
    (hgiven : ∀ l, owner l = some i → owner' l = none → G.same l s' a')
    (hstage : V.Stage (fun l => owner' l = some i) s' a' (work i) p') :
    Glanced V owner' s' a' (Function.update inside i (some p')) work := by
  have hd := hc.disciplined i p hi
  refine ⟨hnear, fun l hl => ?_, fun j q hj => ?_⟩
  · by_cases hmine : owner l = some i
    · exact hgiven l hmine hl
    · have hfree := advance_free hadv hd hmine hl
      have hframe := Guards.symm (advance_frame hadv hd hmine)
      exact Guards.trans hframe (Guards.trans (h.free l hfree) (ha l (by simp [hl])))
  · rcases update_eq_some.mp hj with ⟨rfl, hq⟩ | ⟨hij, hj⟩
    · cases hq
      exact hstage
    · have howner := fun l => advance_owner (j := j) hadv hd hij l
      have hnot : ∀ l, owner l = some j → owner l ≠ some i := fun l hl hl' =>
        hij (Coherent.exclusive hl hl')
      have hnot' : ∀ l, owner l = some j → owner' l ≠ some i := fun l hl hl' =>
        hij (Coherent.exclusive ((howner l).mpr hl) hl')
      simp only [howner]
      refine (h.stage j q hj).congr (hc.disciplined j q hj) (fun l hl => ?_) (fun l hl => ?_) hnear
      · exact advance_frame hadv hd (hnot l hl)
      · exact ha l (hnot' l hl)

/-- The statement with which the section takes effect. -/
theorem taken (h : Glanced V owner s a inside work) (hq : G.Body (fun l => owner' l = some i) q)
    (hwork : ∀ t, q.solo t = work i t) (heff : V.Effective p' s')
    (hnear : ∀ l, owner' l ≠ some i → V.near l s' a)
    (hsame : ∀ l, owner' l = some i → G.same l (p'.solo s').1 (q.solo a).1)
    (hkeep : ∀ l, owner l = some i → owner' l ≠ none) :
    Glanced V owner' s' (work i a).1 (Function.update inside i (some p')) work := by
  rw [← hwork]
  have hframe := fun l (hl : owner' l ≠ some i) => hq.frame hl a
  refine h.moved hc hi hadv hframe (fun l => ?_) (fun l hl hl' => absurd hl' (hkeep l hl))
    (.effective heff hsame)
  by_cases hl : owner' l = some i
  · exact V.near_of_seen (seen_trans (heff.2.seen_solo l) (V.seen_of_same (hsame l hl)))
  · exact V.near_congr (G.refl l s') (hframe l hl) (hnear l hl)

/-- A lock is taken. At the last one a section that shows nothing takes
effect. -/
theorem locked (h : Glanced V owner s a inside work) (hlock : p.locking = true)
    (hsame : ∀ l, owner l = some i → G.same l s a) (hwork : ∀ t, p.solo t = work i t)
    (hsteady : ∀ b, V.Steady b p b) :
    (¬ V.Effective p' s' ∧ Glanced V owner' s' a (Function.update inside i (some p')) work) ∨
    (V.Effective p' s' ∧ (p'.solo s').2 = (work i a).2 ∧
      Glanced V owner' s' (work i a).1 (Function.update inside i (some p')) work) := by
  have hd := advance_disciplined hadv (hc.disciplined i p hi)
  have hwork' : ∀ t, p'.solo t = work i t := fun t => by rw [solo_of_advance hadv hlock, hwork]
  obtain ⟨l, rfl, hfree, rfl, rfl⟩ : ∃ l, p = .lock l p' ∧ owner l = none ∧ s' = s ∧
      owner' = Function.update owner l (some i) := by
    rcases advance_cases hadv with hcase | ⟨m, rfl, -⟩ | ⟨f, k, rfl, -⟩
    · exact hcase
    · cases hlock
    · cases hlock
  have hheld : ∀ m, Function.update owner l (some i) m = some i → G.same m s' a := by
    intro m hm
    by_cases hml : m = l
    · rw [hml]
      exact h.free l hfree
    · rw [Function.update_of_ne hml] at hm
      exact hsame m hm
  have hkeep : ∀ m, owner m = some i → Function.update owner l (some i) m ≠ none := by
    intro m hm
    by_cases hml : m = l
    · simp [hml]
    · simp [hml, hm]
  have hquiet := fun hstage => h.moved hc hi hadv (fun m _ => G.refl m a) h.near
    (fun m hm hm' => absurd hm' (hkeep m hm)) hstage
  by_cases hp' : p'.locking = true
  · refine .inl ⟨fun heff => ?_, hquiet (.before hp' hheld hwork' hsteady)⟩
    rw [heff.1] at hp'
    cases hp'
  · have hopen : p'.locking = false := by simpa using hp'
    have hbody := hd.body hopen
    obtain ⟨hres, hleft⟩ := hbody.solo_same hheld
    by_cases hset : V.Settled p' s'
    · refine .inr ⟨⟨hopen, hset⟩, by rw [hres, hwork'], ?_⟩
      exact h.taken hc hi hadv hbody hwork' ⟨hopen, hset⟩ (fun m _ => h.near m) hleft hkeep
    · refine .inl ⟨fun heff => hset heff.2, hquiet ?_⟩
      refine .pending hopen hset ?_ hbody hwork' hres hleft
      have hfresh : V.Steady a p' a := hsteady a
      exact hfresh.congr hbody (fun m hm => G.symm (hheld m hm)) (fun m _ => G.refl m a)
        fun m _ => h.near m

/-- A statement of a section that has its locks and has yet to take effect. -/
theorem opened (h : Glanced V owner s a inside work) (hlock : p.locking = false)
    (hopen : ¬ V.Settled p s) (hsteady : V.Steady a p s)
    (hq : G.Body (fun l => owner l = some i) q) (hwork : ∀ t, q.solo t = work i t)
    (hres : (p.solo s).2 = (q.solo a).2)
    (hsame : ∀ l, owner l = some i → G.same l (p.solo s).1 (q.solo a).1) :
    (¬ V.Effective p' s' ∧ Glanced V owner' s' a (Function.update inside i (some p')) work) ∨
    (V.Effective p' s' ∧ (p'.solo s').2 = (work i a).2 ∧
      Glanced V owner' s' (work i a).1 (Function.update inside i (some p')) work) := by
  have hd := hc.disciplined i p hi
  have hlock' := advance_locking hadv hd hlock
  have hsolo := advance_solo hadv hlock
  have hframe := fun l (hl : owner l ≠ some i) => advance_frame hadv hd hl
  obtain ⟨f, k, rfl, rfl, rfl, rfl⟩ : ∃ f k, p = .act f k ∧ s' = f s ∧ owner' = owner ∧
      p' = k s := by
    rcases advance_cases hadv with ⟨l, rfl, -⟩ | ⟨l, rfl, -⟩ | hcase
    · cases hlock
    · exact absurd hsteady hopen
    · exact hcase
  have hkeep : ∀ l, owner' l = some i → owner' l ≠ none := fun l hl => by simp [hl]
  rw [← hsolo] at hres hsame
  by_cases hset : V.Settled (k s) (f s)
  · refine .inr ⟨⟨hlock', hset⟩, by rw [hres, hwork], ?_⟩
    refine h.taken hc hi hadv hq hwork ⟨hlock', hset⟩ (fun l hl => ?_) hsame hkeep
    exact V.near_congr (hframe l hl) (G.refl l a) (h.near l)
  · obtain ⟨hnear, hsteady'⟩ := hsteady.resolve_left hset
    refine .inl ⟨fun heff => hset heff.2, ?_⟩
    refine h.moved hc hi hadv (fun l _ => G.refl l a) hnear (fun l hl hl' => ?_) ?_
    · exact absurd hl' (hkeep l hl)
    · exact .pending hlock' hset hsteady' hq hwork hres hsame

/-- A statement of a section that has taken effect. -/
theorem finished (h : Glanced V owner s a inside work) (heff : V.Effective p s)
    (hsame : ∀ l, owner l = some i → G.same l (p.solo s).1 a) :
    V.Effective p' s' ∧ Glanced V owner' s' a (Function.update inside i (some p')) work := by
  have hd := hc.disciplined i p hi
  have hlock' := advance_locking hadv hd heff.1
  have hsolo := advance_solo hadv heff.1
  have hset : V.Settled p' s' := by
    have hset := heff.2
    rcases advance_cases hadv with ⟨l, rfl, -⟩ | ⟨l, rfl, rfl, -⟩ | ⟨f, k, rfl, rfl, -, rfl⟩
    · exact absurd heff.1 (by simp [locking])
    · exact hset
    · exact hset.2
  have hnear : ∀ l, V.near l s' a := by
    intro l
    by_cases hl : owner l = some i
    · have hseen := hset.seen_solo l
      rw [hsolo] at hseen
      exact V.near_of_seen (seen_trans hseen (V.seen_of_same (hsame l hl)))
    · exact V.near_congr (advance_frame hadv hd hl) (G.refl l a) (h.near l)
  have hkept : ∀ l, owner' l = some i → owner l = some i := by
    intro l hl
    rcases advance_cases hadv with ⟨m, rfl, -⟩ | ⟨m, rfl, -, rfl⟩ | ⟨f, k, rfl, -, rfl, -⟩
    · exact absurd heff.1 (by simp [locking])
    · by_cases hlm : l = m
      · simp [hlm] at hl
      · rwa [Function.update_of_ne hlm] at hl
    · exact hl
  refine ⟨⟨hlock', hset⟩, h.moved hc hi hadv (fun l _ => G.refl l a) hnear (fun l hl hl' => ?_) ?_⟩
  · -- the lock was given back: nothing is left to be done to its data
    have hgone : ¬ owner' l = some i := by simp [hl']
    have hbody := (advance_disciplined hadv hd).body hlock'
    have hend := hbody.frame hgone s'
    rw [hsolo] at hend
    exact Guards.trans hend (hsame l hl)
  · refine .effective ⟨hlock', hset⟩ fun l hl => ?_
    rw [hsolo]
    exact hsame l (hkept l hl)

/-- The step rule: a statement leaves the atomic state, or the section takes
effect with it as a whole. -/
theorem advance (h : Glanced V owner s a inside work) :
    ((V.Effective p s ↔ V.Effective p' s') ∧
      Glanced V owner' s' a (Function.update inside i (some p')) work) ∨
    (¬ V.Effective p s ∧ V.Effective p' s' ∧ (p'.solo s').2 = (work i a).2 ∧
      Glanced V owner' s' (work i a).1 (Function.update inside i (some p')) work) := by
  cases h.stage i p hi with
  | before hlock hsame hwork hsteady =>
    have hnot : ¬ V.Effective p s := fun heff => by simp [heff.1] at hlock
    rcases h.locked hc hi hadv hlock hsame hwork hsteady with ⟨hnot', hg⟩ | ⟨heff, hres, hg⟩
    · exact .inl ⟨iff_of_false hnot hnot', hg⟩
    · exact .inr ⟨hnot, heff, hres, hg⟩
  | pending hlock hopen hsteady hq hwork hres hsame =>
    have hnot : ¬ V.Effective p s := fun heff => hopen heff.2
    rcases h.opened hc hi hadv hlock hopen hsteady hq hwork hres hsame with
      ⟨hnot', hg⟩ | ⟨heff, hres, hg⟩
    · exact .inl ⟨iff_of_false hnot hnot', hg⟩
    · exact .inr ⟨hnot, heff, hres, hg⟩
  | effective heff hsame =>
    obtain ⟨heff', hg⟩ := h.finished hc hi hadv heff hsame
    exact .inl ⟨iff_of_true heff heff', hg⟩

end Advance

end Glanced
