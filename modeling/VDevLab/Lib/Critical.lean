import Mathlib.Logic.Function.Basic
import Mathlib.Order.Bounds.Basic

/-!
# Critical sections, statement by statement

A section takes its locks, works on the shared state one access at a time,
gives its locks back and ends with a result. Other parties run between any
two of its statements; a lock only makes the next party that asks for it
wait.

What each lock guards is a relation on shared states that holds when they
agree there. A section is disciplined when it takes its locks in the order
of their ranks before its first access, and every access reads and changes
only what its locks guard.

Disciplined sections behave as if each ran at once when it had its last lock:
`Coherent` relates the shared state to the one of that serial execution, and
`Coherent.advance` is its step rule. They never wait in a circle: one of them
can always go on (`Coherent.exists_advance`).
-/

/-- The rest of a section: a statement and what follows it, or the end. -/
inductive Critical (Λ σ ρ : Type*)
  | done (r : ρ)
  | lock (l : Λ) (k : Critical Λ σ ρ)
  | unlock (l : Λ) (k : Critical Λ σ ρ)
  | act (f : σ → σ) (k : σ → Critical Λ σ ρ)

/-- The order in which locks are taken, and what each of them guards. -/
structure Guards (Λ σ : Type*) where
  rank : Λ → Nat
  same : Λ → σ → σ → Prop
  equiv : ∀ l, Equivalence (same l)

namespace Critical

variable {Λ σ ρ : Type*}

/-- The section with nobody else: the state it leaves and its result. -/
def solo : Critical Λ σ ρ → σ → σ × ρ
  | done r, s => (s, r)
  | lock _ k, s => k.solo s
  | unlock _ k, s => k.solo s
  | act f k, s => (k s).solo (f s)

/-- The next statement takes a lock. -/
def locking : Critical Λ σ ρ → Bool
  | lock _ _ => true
  | _ => false

/-- The next statement takes the last lock. -/
def lockPoint : Critical Λ σ ρ → Bool
  | lock _ k => !k.locking
  | _ => false

theorem locking_of_lockPoint {p : Critical Λ σ ρ} (h : p.lockPoint = true) :
    p.locking = true := by
  cases p with
  | lock => rfl
  | _ => cases h

section Advance

variable [DecidableEq Λ]

/-- The next statement of party `i`, unless it has to wait for a lock. -/
def advance (i : Nat) (owner : Λ → Option Nat) (s : σ) :
    Critical Λ σ ρ → Option (σ × (Λ → Option Nat) × Critical Λ σ ρ)
  | done _ => none
  | lock l k => if owner l = none then some (s, Function.update owner l (some i), k) else none
  | unlock l k => some (s, Function.update owner l none, k)
  | act f k => some (f s, owner, k s)

end Advance

end Critical

namespace Guards

variable {Λ σ ρ : Type*} (G : Guards Λ σ)

theorem refl (l : Λ) (s : σ) : G.same l s s := (G.equiv l).refl s

variable {G}

theorem symm {l : Λ} {s t : σ} (h : G.same l s t) : G.same l t s := (G.equiv l).symm h

theorem trans {l : Λ} {s t u : σ} (h : G.same l s t) (h' : G.same l t u) : G.same l s u :=
  (G.equiv l).trans h h'

variable (G)

/-- The part of a section behind its last lock. -/
def Body (held : Λ → Prop) : Critical Λ σ ρ → Prop
  | .done _ => ∀ l, ¬ held l
  | .lock _ _ => False
  | .unlock l k => held l ∧ Body (fun m => held m ∧ m ≠ l) k
  | .act f k =>
      (∀ l, ¬ held l → ∀ s, G.same l s (f s)) ∧
      (∀ s t, (∀ l, held l → G.same l s t) → k s = k t ∧ ∀ l, held l → G.same l (f s) (f t)) ∧
      ∀ s, Body held (k s)

/-- A section whose locks are taken first, in the order of their ranks. -/
def Disciplined (held : Λ → Prop) : Critical Λ σ ρ → Prop
  | .lock l k => (∀ m, held m → G.rank m < G.rank l) ∧ Disciplined (fun m => held m ∨ m = l) k
  | .done r => G.Body held (.done r : Critical Λ σ ρ)
  | .unlock l k => G.Body held (.unlock l k)
  | .act f k => G.Body held (.act f k)

variable {G} {held : Λ → Prop} {p : Critical Λ σ ρ}

theorem Body.disciplined (h : G.Body held p) : G.Disciplined held p := by
  cases p with
  | lock => exact h.elim
  | _ => exact h

theorem Disciplined.body (h : G.Disciplined held p) (hp : p.locking = false) :
    G.Body held p := by
  cases p with
  | lock => exact absurd hp (by simp [Critical.locking])
  | _ => exact h

/-! ## A body with nobody else -/

/-- A body leaves alone what its locks do not guard. -/
theorem Body.frame (h : G.Body held p) {l : Λ} (hl : ¬ held l) (s : σ) :
    G.same l s (p.solo s).1 := by
  induction p generalizing held s with
  | done r => exact G.refl l s
  | lock m k => exact h.elim
  | unlock m k ih => exact ih h.2 (fun hm => hl hm.1) s
  | act f k ih => exact G.trans (h.1 l hl s) (ih s (h.2.2 s) hl (f s))

/-- What a body does depends on what its locks guard, and on nothing else. -/
theorem Body.solo_same (h : G.Body held p) {s t : σ} (hst : ∀ l, held l → G.same l s t) :
    (p.solo s).2 = (p.solo t).2 ∧
      ∀ l, held l → G.same l (p.solo s).1 (p.solo t).1 := by
  induction p generalizing held s t with
  | done r => exact ⟨rfl, hst⟩
  | lock m k => exact h.elim
  | unlock m k ih =>
    obtain ⟨hres, hsame⟩ := ih h.2 (fun l hl => hst l hl.1)
    refine ⟨hres, fun l hl => ?_⟩
    by_cases hlm : l = m
    · -- the lock that is given back: the rest of the body leaves its data alone
      have hgone : ¬ (held l ∧ l ≠ m) := fun hl' => hl'.2 hlm
      exact G.trans (G.symm (h.2.frame hgone s)) (G.trans (hst l hl) (h.2.frame hgone t))
    · exact hsame l ⟨hl, hlm⟩
  | act f k ih =>
    obtain ⟨hk, hf⟩ := h.2.1 s t hst
    simp only [Critical.solo, ← hk]
    exact ih s (h.2.2 s) hf

end Guards

/-! ## One statement of one party -/

namespace Critical

variable {Λ σ ρ : Type*} [DecidableEq Λ] {G : Guards Λ σ} {i j : Nat}
  {owner owner' : Λ → Option Nat} {s s' : σ} {p p' : Critical Λ σ ρ}

/-- What the next statement does. -/
theorem advance_cases (h : p.advance i owner s = some (s', owner', p')) :
    (∃ l, p = .lock l p' ∧ owner l = none ∧ s' = s ∧ owner' = Function.update owner l (some i)) ∨
    (∃ l, p = .unlock l p' ∧ s' = s ∧ owner' = Function.update owner l none) ∨
    (∃ f k, p = .act f k ∧ s' = f s ∧ owner' = owner ∧ p' = k s) := by
  cases p with
  | done r => cases h
  | lock l k =>
    simp only [advance] at h
    split at h
    · next hfree => cases h; exact .inl ⟨l, rfl, hfree, rfl, rfl⟩
    · cases h
  | unlock l k => cases h; exact .inr (.inl ⟨l, rfl, rfl, rfl⟩)
  | act f k => cases h; exact .inr (.inr ⟨f, k, rfl, rfl, rfl, rfl⟩)

/-- The locks of the others stay where they are. -/
theorem advance_owner (h : p.advance i owner s = some (s', owner', p'))
    (hp : G.Disciplined (fun l => owner l = some i) p) (hij : j ≠ i) (l : Λ) :
    owner' l = some j ↔ owner l = some j := by
  rcases advance_cases h with ⟨m, rfl, hfree, -, rfl⟩ | ⟨m, rfl, -, rfl⟩ | ⟨f, k, rfl, -, rfl, -⟩
  · by_cases hl : l = m
    · subst hl
      simp [hfree, hij.symm]
    · simp [hl]
  · by_cases hl : l = m
    · subst hl
      have hmine : owner l = some i := hp.1
      simp [hmine, hij.symm]
    · simp [hl]
  · exact Iff.rfl

/-- The statement leaves alone what the party has no lock for. -/
theorem advance_frame (h : p.advance i owner s = some (s', owner', p'))
    (hp : G.Disciplined (fun l => owner l = some i) p) {l : Λ} (hl : owner l ≠ some i) :
    G.same l s s' := by
  rcases advance_cases h with ⟨m, rfl, -, rfl, -⟩ | ⟨m, rfl, rfl, -⟩ | ⟨f, k, rfl, rfl, -, -⟩
  · exact G.refl l _
  · exact G.refl l _
  · exact hp.1 l hl s

/-- A lock that is free after the statement was free, or the party had it. -/
theorem advance_free (h : p.advance i owner s = some (s', owner', p'))
    (hp : G.Disciplined (fun l => owner l = some i) p) {l : Λ} (hmine : owner l ≠ some i)
    (hl : owner' l = none) : owner l = none := by
  rcases advance_cases h with ⟨m, rfl, hm, -, rfl⟩ | ⟨m, rfl, -, rfl⟩ | ⟨f, k, rfl, -, rfl, -⟩
  · by_cases hlm : l = m
    · rw [hlm]
      exact hm
    · rwa [Function.update_of_ne hlm] at hl
  · by_cases hlm : l = m
    · exact absurd (hlm ▸ hp.1) hmine
    · rwa [Function.update_of_ne hlm] at hl
  · exact hl

/-- What is left is disciplined with the locks the party now has. -/
theorem advance_disciplined (h : p.advance i owner s = some (s', owner', p'))
    (hp : G.Disciplined (fun l => owner l = some i) p) :
    G.Disciplined (fun l => owner' l = some i) p' := by
  rcases advance_cases h with ⟨m, rfl, hfree, -, rfl⟩ | ⟨m, rfl, -, rfl⟩ | ⟨f, k, rfl, -, rfl, rfl⟩
  · have heq : (fun l => Function.update owner m (some i) l = some i) =
        fun l => owner l = some i ∨ l = m := by
      funext l
      by_cases hl : l = m <;> simp [hl]
    rw [heq]
    exact hp.2
  · have heq : (fun l => Function.update owner m none l = some i) =
        fun l => owner l = some i ∧ l ≠ m := by
      funext l
      by_cases hl : l = m <;> simp [hl]
    rw [heq]
    exact hp.2.disciplined
  · exact (hp.2.2 s).disciplined

/-- Behind the last lock a statement does not change what is to come. -/
theorem advance_solo (h : p.advance i owner s = some (s', owner', p')) (hp : p.locking = false) :
    p'.solo s' = p.solo s := by
  rcases advance_cases h with ⟨m, rfl, -⟩ | ⟨m, rfl, rfl, -⟩ | ⟨f, k, rfl, rfl, -, rfl⟩
  · cases hp
  · rfl
  · rfl

/-- Taking a lock does nothing to the state. -/
theorem solo_of_advance (h : p.advance i owner s = some (s', owner', p')) (hp : p.locking = true)
    (t : σ) : p'.solo t = p.solo t := by
  rcases advance_cases h with ⟨m, rfl, -⟩ | ⟨m, rfl, -⟩ | ⟨f, k, rfl, -⟩
  · rfl
  · cases hp
  · cases hp

theorem locking_of_advance (h : p.advance i owner s = some (s', owner', p'))
    (hd : G.Disciplined (fun l => owner l = some i) p) :
    p'.locking = true ↔ p.locking = true ∧ p.lockPoint = false := by
  rcases advance_cases h with ⟨m, rfl, -⟩ | ⟨m, rfl, -⟩ | ⟨f, k, rfl, -, -, rfl⟩
  · simp [locking, lockPoint]
  · have hb := hd.2
    cases p' with
    | lock => exact hb.elim
    | _ => simp [locking]
  · have hb := hd.2.2 s
    cases hk : k s with
    | lock => rw [hk] at hb; exact hb.elim
    | _ => simp [locking]

/-- Behind its last lock a section takes no other. -/
theorem advance_locking (h : p.advance i owner s = some (s', owner', p'))
    (hd : G.Disciplined (fun l => owner l = some i) p) (hp : p.locking = false) :
    p'.locking = false := by
  rw [← Bool.not_eq_true, locking_of_advance h hd, hp]
  simp

end Critical

/-! ## Many parties -/

namespace Critical

variable {Λ σ ρ : Type*}

/-- The state a section commits itself to: the present one until it has its
last lock, then the one it will leave. -/
def settle (p : Critical Λ σ ρ) (s : σ) : σ := if p.locking then s else (p.solo s).1

/-- The serial state: a whole section is done when its last lock is taken. -/
def serially (p : Critical Λ σ ρ) (a : σ) : σ := if p.lockPoint then (p.solo a).1 else a

end Critical

open Critical

/-- One party's entry is replaced. -/
theorem update_eq_some {α : Type*} {f : Nat → Option α} {i j : Nat} {x : Option α} {y : α} :
    Function.update f i x j = some y ↔ j = i ∧ x = some y ∨ j ≠ i ∧ f j = some y := by
  by_cases h : j = i
  · subst h
    simp
  · simp [h]

/-- Some parties are inside a section, others are not. The data of a free lock
are those of the serial state; the data of a lock that is held will be. -/
structure Coherent {Λ σ ρ : Type*} (G : Guards Λ σ) (owner : Λ → Option Nat) (s a : σ)
    (inside : Nat → Option (Critical Λ σ ρ)) : Prop where
  disciplined : ∀ i p, inside i = some p → G.Disciplined (fun l => owner l = some i) p
  outside : ∀ i, inside i = none → ∀ l, owner l ≠ some i
  free : ∀ l, owner l = none → G.same l s a
  held : ∀ i p, inside i = some p → ∀ l, owner l = some i → G.same l (p.settle s) a

namespace Coherent

variable {Λ σ ρ : Type*} {G : Guards Λ σ} {owner owner' : Λ → Option Nat} {s s' a : σ}
  {inside : Nat → Option (Critical Λ σ ρ)} {i j : Nat} {p p' q : Critical Λ σ ρ}

/-- Nobody is inside a section and no lock is held. -/
theorem idle (G : Guards Λ σ) (s : σ) :
    Coherent G (fun _ => none) s s (fun _ => (none : Option (Critical Λ σ ρ))) where
  disciplined _ _ h := nomatch h
  outside _ _ _ := nofun
  free l _ := G.refl l s
  held _ _ h := nomatch h

/-- A party begins a section. -/
theorem enter (h : Coherent G owner s a inside) (hi : inside i = none)
    (hp : G.Disciplined (fun _ => False) p) :
    Coherent G owner s a (Function.update inside i (some p)) := by
  have hnone := h.outside i hi
  refine ⟨fun j q hj => ?_, fun j hj => ?_, h.free, fun j q hj l hl => ?_⟩
  · rcases update_eq_some.mp hj with ⟨rfl, hq⟩ | ⟨-, hj⟩
    · cases hq
      simpa only [hnone] using hp
    · exact h.disciplined j q hj
  · by_cases hij : j = i
    · subst hij
      exact hnone
    · rw [Function.update_of_ne hij] at hj
      exact h.outside j hj
  · rcases update_eq_some.mp hj with ⟨rfl, -⟩ | ⟨-, hj⟩
    · exact absurd hl (hnone l)
    · exact h.held j q hj l hl

/-- A party is through with its section. -/
theorem leave {r : ρ} (h : Coherent G owner s a inside) (hi : inside i = some (.done r)) :
    Coherent G owner s a (Function.update inside i none) := by
  have hnone : ∀ l, ¬ owner l = some i := h.disciplined i _ hi
  refine ⟨fun j q hj => ?_, fun j hj => ?_, h.free, fun j q hj => ?_⟩
  · rcases update_eq_some.mp hj with ⟨-, hq⟩ | ⟨-, hj⟩
    · cases hq
    · exact h.disciplined j q hj
  · by_cases hij : j = i
    · subst hij
      exact hnone
    · rw [Function.update_of_ne hij] at hj
      exact h.outside j hj
  · rcases update_eq_some.mp hj with ⟨-, hq⟩ | ⟨-, hj⟩
    · cases hq
    · exact h.held j q hj

/-- Two parties never hold one lock. -/
theorem exclusive {l : Λ} (hi : owner l = some i) (hj : owner l = some j) : i = j :=
  Option.some.inj (hi.symm.trans hj)

section Advance

variable [DecidableEq Λ] (h : Coherent G owner s a inside) (hi : inside i = some p)
  (hadv : p.advance i owner s = some (s', owner', p'))

include h hi hadv

/-- What the others are to do stays as it is. -/
theorem solo_other (hij : j ≠ i) (hj : inside j = some q) (hq : q.locking = false) :
    (q.solo s).2 = (q.solo s').2 ∧
      ∀ l, owner l = some j → G.same l (q.solo s).1 (q.solo s').1 := by
  refine ((h.disciplined j q hj).body hq).solo_same fun l hl => ?_
  refine advance_frame hadv (h.disciplined i p hi) fun hl' => hij ?_
  exact exclusive hl hl'

/-- The serial step, too, leaves alone what the party has no lock for. -/
theorem serially_frame {l : Λ} (hl : owner' l ≠ some i) : G.same l a (p.serially a) := by
  unfold serially
  split
  · next hpoint =>
    have hd := advance_disciplined hadv (h.disciplined i p hi)
    rcases advance_cases hadv with ⟨m, rfl, -⟩ | ⟨m, rfl, -⟩ | ⟨f, k, rfl, -⟩
    · exact (hd.body (by simpa [lockPoint] using hpoint)).frame hl a
    · cases hpoint
    · cases hpoint
  · exact G.refl l a

/-- At its last lock the section works on the serial state. -/
theorem opened (hp : p.locking = true) {l : Λ} (hl : owner' l = some i) : G.same l s a := by
  rcases advance_cases hadv with ⟨m, rfl, hfree, -, rfl⟩ | ⟨m, rfl, -⟩ | ⟨f, k, rfl, -⟩
  · by_cases hlm : l = m
    · subst hlm
      exact h.free l hfree
    · rw [Function.update_of_ne hlm] at hl
      exact h.held i _ hi l hl
  · cases hp
  · cases hp

theorem solo_lockPoint (hp : p.lockPoint = true) :
    (p'.solo s').2 = (p.solo a).2 ∧
      ∀ l, owner' l = some i → G.same l (p'.solo s').1 (p.solo a).1 := by
  have hd := advance_disciplined hadv (h.disciplined i p hi)
  have hopen := fun l => opened h hi hadv (l := l)
  rcases advance_cases hadv with ⟨m, rfl, -, rfl, -⟩ | ⟨m, rfl, -⟩ | ⟨f, k, rfl, -⟩
  · exact (hd.body (by simpa [lockPoint] using hp)).solo_same fun l hl => hopen l rfl hl
  · cases hp
  · cases hp

theorem settle_self {l : Λ} (hl : owner' l = some i) :
    G.same l (p'.settle s') (p.serially a) := by
  have hlock := locking_of_advance hadv (h.disciplined i p hi)
  by_cases hp : p.locking = true
  · by_cases hpoint : p.lockPoint = true
    · -- from here on the section is a body, in both executions
      have hp' : p'.locking = false := by
        rw [← Bool.not_eq_true, hlock]
        simp [hpoint]
      rw [settle, hp', if_neg (by simp), serially, if_pos hpoint]
      exact (solo_lockPoint h hi hadv hpoint).2 l hl
    · have hp' : p'.locking = true := hlock.mpr ⟨hp, by simpa using hpoint⟩
      rw [settle, if_pos hp', serially, if_neg hpoint]
      have hsame := opened h hi hadv hp hl
      rcases advance_cases hadv with ⟨m, rfl, -, rfl, -⟩ | ⟨m, rfl, -⟩ | ⟨f, k, rfl, -⟩
      · exact hsame
      · cases hp
      · cases hp
  · have hp0 : p.locking = false := by simpa using hp
    have hp' := advance_locking hadv (h.disciplined i p hi) hp0
    have hpoint : p.lockPoint = false := by
      cases p with
      | lock => cases hp0
      | _ => rfl
    rw [settle, hp', if_neg (by simp), serially, if_neg (by simp [hpoint]),
      advance_solo hadv hp0]
    have hmine : owner l = some i := by
      rcases advance_cases hadv with ⟨m, rfl, -⟩ | ⟨m, rfl, -, rfl⟩ | ⟨f, k, rfl, -, rfl, -⟩
      · cases hp0
      · by_cases hlm : l = m
        · subst hlm
          simp at hl
        · rwa [Function.update_of_ne hlm] at hl
      · exact hl
    have := h.held i p hi l hmine
    rwa [settle, hp0, if_neg (by simp)] at this

theorem settle_other (hij : j ≠ i) (hj : inside j = some q) {l : Λ} (hl : owner l = some j) :
    G.same l (q.settle s') (p.serially a) := by
  have hd := h.disciplined i p hi
  have hnot : owner l ≠ some i := fun hl' => hij (exclusive hl hl')
  have hnot' : owner' l ≠ some i := fun hl' =>
    hij (exclusive ((advance_owner hadv hd hij l).mpr hl) hl')
  refine G.trans ?_ (G.trans (h.held j q hj l hl) (h.serially_frame hi hadv hnot'))
  by_cases hq : q.locking = true
  · simp only [settle, if_pos hq]
    exact G.symm (advance_frame hadv hd hnot)
  · simp only [settle, if_neg hq]
    exact G.symm ((h.solo_other hi hadv hij hj (by simpa using hq)).2 l hl)

theorem settle_free {l : Λ} (hl : owner' l = none) : G.same l s' (p.serially a) := by
  have hd := h.disciplined i p hi
  have hnot' : owner' l ≠ some i := by simp [hl]
  by_cases hmine : owner l = some i
  · -- the lock was given back: nothing is left to be done to its data
    rcases advance_cases hadv with ⟨m, rfl, -, -, rfl⟩ | ⟨m, rfl, rfl, rfl⟩ | ⟨f, k, rfl, -, rfl, -⟩
    · by_cases hlm : l = m
      · simp [hlm] at hl
      · rw [Function.update_of_ne hlm, hmine] at hl
        cases hl
    · have hlm : l = m := by
        by_contra hlm
        rw [Function.update_of_ne hlm, hmine] at hl
        cases hl
      have hheld := h.held i _ hi l hmine
      exact G.trans (hd.2.frame (fun hm => hm.2 hlm) s') hheld
    · rw [hmine] at hl
      cases hl
  · have hfree := advance_free hadv hd hmine hl
    exact G.trans (G.symm (advance_frame hadv hd hmine))
      (G.trans (h.free l hfree) (h.serially_frame hi hadv hnot'))

/-- The step rule: one statement of one section. -/
theorem advance :
    Coherent G owner' s' (p.serially a) (Function.update inside i (some p')) := by
  have hd := h.disciplined i p hi
  have howner := fun {j} => advance_owner (j := j) hadv hd
  refine ⟨fun j q hj => ?_, fun j hj l => ?_, fun l hl => h.settle_free hi hadv hl,
    fun j q hj l hl => ?_⟩
  · rcases update_eq_some.mp hj with ⟨rfl, hq⟩ | ⟨hij, hj⟩
    · cases hq
      exact advance_disciplined hadv hd
    · simpa only [howner hij] using h.disciplined j q hj
  · by_cases hij : j = i
    · subst hij
      simp at hj
    · rw [Function.update_of_ne hij] at hj
      rw [ne_eq, howner hij]
      exact h.outside j hj l
  · rcases update_eq_some.mp hj with ⟨rfl, hq⟩ | ⟨hij, hj⟩
    · cases hq
      exact h.settle_self hi hadv hl
    · exact h.settle_other hi hadv hij hj ((howner hij l).mp hl)

end Advance

/-! ## No deadlock -/

section Deadlock

variable [DecidableEq Λ] {n : Nat}

/-- Along the locks that are waited for the ranks go up, so the wait ends at
a section that can go on. -/
theorem exists_advance (h : Coherent G owner s a inside) (hn : ∀ l, G.rank l ≤ n)
    (hi : inside i = some p) (hp : ∀ r, p ≠ .done r) :
    ∃ j q, inside j = some q ∧ ∃ next, q.advance j owner s = some next := by
  -- the induction is on how far the lock it waits for is below the bound
  suffices hall : ∀ (gap : Nat) (i : Nat) (p : Critical Λ σ ρ), inside i = some p →
      (∀ r, p ≠ .done r) → (∀ l k, p = .lock l k → n < G.rank l + gap) →
      ∃ j q, inside j = some q ∧ ∃ next, q.advance j owner s = some next from
    hall (n + 1) i p hi hp fun l _ _ => by omega
  intro gap
  induction gap with
  | zero =>
    intro i p hi hp hgap
    cases p with
    | done r => exact absurd rfl (hp r)
    | lock l k => exact absurd (hgap l k rfl) (by have := hn l; omega)
    | unlock l k => exact ⟨i, _, hi, _, rfl⟩
    | act f k => exact ⟨i, _, hi, _, rfl⟩
  | succ gap ih =>
    intro i p hi hp hgap
    cases p with
    | done r => exact absurd rfl (hp r)
    | unlock l k => exact ⟨i, _, hi, _, rfl⟩
    | act f k => exact ⟨i, _, hi, _, rfl⟩
    | lock l k =>
      cases ho : owner l with
      | none => exact ⟨i, _, hi, _, if_pos ho⟩
      | some j =>
        cases hj : inside j with
        | none => exact absurd ho (h.outside j hj l)
        | some q =>
          have hd := h.disciplined j q hj
          refine ih j q hj ?_ ?_
          · rintro r rfl
            exact hd l ho
          · rintro m k' rfl
            -- the holder asks for a lock of higher rank
            have hlt := hd.1 l ho
            have := hgap l k rfl
            omega

end Deadlock

end Coherent
