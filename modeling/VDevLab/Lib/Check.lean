import Mathlib.Data.List.Forall2

/-!
# Chains of checks in `Except`

A checker is a sequence of tests that each either refuse with an error or
let the rest run. These rules turn "the chain succeeded" into the list of
things that were true, one test at a time.
-/

namespace Check

variable {ε α β : Type}

/-- Succeeding behind a test that refuses on `p`. -/
theorem ite_error_eq_ok {p : Prop} [Decidable p] {e : ε} {x : Except ε α} {a : α} :
    (if p then .error e else x) = .ok a ↔ ¬ p ∧ x = .ok a := by
  by_cases hp : p <;> simp [hp]

/-- Succeeding in two steps. -/
theorem bind_eq_ok {x : Except ε α} {f : α → Except ε β} {b : β} :
    (x >>= f) = .ok b ↔ ∃ a, x = .ok a ∧ f a = .ok b := by
  cases x with
  | error e => simp [Bind.bind, Except.bind]
  | ok a => simp [Bind.bind, Except.bind]

/-- Failing in one of two steps. -/
theorem bind_eq_error {x : Except ε α} {f : α → Except ε β} {e : ε} :
    (x >>= f) = .error e ↔ x = .error e ∨ ∃ a, x = .ok a ∧ f a = .error e := by
  cases x with
  | error e' => simp [Bind.bind, Except.bind]
  | ok a => simp [Bind.bind, Except.bind]

theorem ok_bind {a : α} {f : α → Except ε β} : ((Except.ok a : Except ε α) >>= f) = f a := rfl

theorem map_eq_ok {x : Except ε α} {f : α → β} {b : β} (h : x.map f = .ok b) :
    ∃ a, x = .ok a ∧ f a = b := by
  cases x with
  | error e => cases h
  | ok a =>
    cases h
    exact ⟨a, rfl, rfl⟩

theorem map_eq_error {x : Except ε α} {f : α → β} {e : ε} (h : x.map f = .error e) :
    x = .error e := by
  cases x with
  | error e' =>
    cases h
    rfl
  | ok a => cases h

theorem pure_eq_ok {a b : α} : (pure a : Except ε α) = .ok b ↔ a = b := by
  simp [pure, Except.pure]

/-- A test that refuses on `p` and otherwise lets the rest run. -/
def refuse (p : Prop) [Decidable p] (e : ε) : Except ε Unit :=
  if p then .error e else .ok ()

@[simp] theorem refuse_eq_ok {p : Prop} [Decidable p] {e : ε} {u : Unit} :
    refuse p e = .ok u ↔ ¬ p := by
  by_cases hp : p <;> simp [refuse, hp]

/-- Run a checker over a list, telling it the index, and stop at the first
error. -/
def eachFrom (f : Nat → α → Except ε β) : Nat → List α → Except ε (List β)
  | _, [] => .ok []
  | i, a :: as => do
      let b ← f i a
      let bs ← eachFrom f (i + 1) as
      return b :: bs

/-- A list of checks succeeds iff each of them does. Each check here accepts
`a` for some `c` that it relates to `a` and returns the image of `c`. -/
theorem eachFrom_eq_ok {γ : Type} {f : Nat → α → Except ε β} {P : α → γ → Prop} {Q : γ → Prop}
    {g : γ → β} (hf : ∀ i a b, f i a = .ok b ↔ ∃ c, (P a c ∧ Q c) ∧ b = g c)
    {i : Nat} {as : List α} {bs : List β} :
    eachFrom f i as = .ok bs ↔
      ∃ cs, List.Forall₂ P as cs ∧ (∀ c ∈ cs, Q c) ∧ bs = cs.map g := by
  induction as generalizing i bs with
  | nil =>
    simp only [eachFrom, Except.ok.injEq, List.forall₂_nil_left_iff]
    constructor
    · rintro rfl
      exact ⟨[], rfl, by simp, rfl⟩
    · intro h
      obtain ⟨cs, rfl, -, rfl⟩ := h
      rfl
  | cons a as ih =>
    simp only [eachFrom, bind_eq_ok, pure_eq_ok, hf, ih]
    constructor
    · intro h
      obtain ⟨_, ⟨c, ⟨hP, hQ⟩, rfl⟩, _, ⟨cs, hPs, hQs, rfl⟩, rfl⟩ := h
      exact ⟨c :: cs, .cons hP hPs, List.forall_mem_cons.mpr ⟨hQ, hQs⟩, rfl⟩
    · intro h
      obtain ⟨cs, hPs, hQs, rfl⟩ := h
      cases hPs with
      | @cons _ c _ cs hP hPs =>
        obtain ⟨hQ, hQs⟩ := List.forall_mem_cons.mp hQs
        exact ⟨g c, ⟨c, ⟨hP, hQ⟩, rfl⟩, cs.map g, ⟨cs, hPs, hQs, rfl⟩, rfl⟩

/-- A map that fails nowhere. -/
theorem mapM_eq_map {f : α → Except ε β} {g : α → β} {as : List α}
    (h : ∀ a ∈ as, f a = .ok (g a)) : as.mapM f = .ok (as.map g) := by
  induction as with
  | nil => rfl
  | cons a as ih =>
    rw [List.mapM_cons, h a List.mem_cons_self, ih fun a' ha' => h a' (List.mem_cons_of_mem a ha')]
    rfl

/-- A map succeeds iff it does everywhere. -/
theorem mapM_isOk {f : α → Except ε β} {as : List α} :
    (∃ bs, as.mapM f = .ok bs) ↔ ∀ a ∈ as, ∃ b, f a = .ok b := by
  induction as with
  | nil => exact ⟨fun _ a ha => absurd ha List.not_mem_nil, fun _ => ⟨[], rfl⟩⟩
  | cons a as ih =>
    simp only [List.mapM_cons, bind_eq_ok, pure_eq_ok, List.forall_mem_cons, ← ih]
    constructor
    · intro h
      obtain ⟨_, b, hb, bs, hbs, -⟩ := h
      exact ⟨⟨b, hb⟩, bs, hbs⟩
    · intro h
      obtain ⟨⟨b, hb⟩, bs, hbs⟩ := h
      exact ⟨b :: bs, b, hb, bs, hbs, rfl⟩

/-- A map that succeeded, element by element. -/
theorem mapM_forall₂ {f : α → Except ε β} {as : List α} {bs : List β} (h : as.mapM f = .ok bs) :
    List.Forall₂ (fun a b => f a = .ok b) as bs := by
  induction as generalizing bs with
  | nil =>
    cases pure_eq_ok.mp h
    exact .nil
  | cons a as ih =>
    simp only [List.mapM_cons, bind_eq_ok, pure_eq_ok] at h
    obtain ⟨b, hb, bs, hbs, rfl⟩ := h
    exact .cons hb (ih hbs)

theorem mem_of_mapM {f : α → Except ε β} {as : List α} {bs : List β} (h : as.mapM f = .ok bs)
    {b : β} (hb : b ∈ bs) : ∃ a ∈ as, f a = .ok b := by
  have hall := mapM_forall₂ h
  clear h
  induction hall with
  | nil => cases hb
  | @cons a b' as bs hab _ ih =>
    rcases List.mem_cons.mp hb with rfl | hb
    · exact ⟨a, List.mem_cons_self, hab⟩
    · obtain ⟨a', ha', hab'⟩ := ih hb
      exact ⟨a', List.mem_cons_of_mem a ha', hab'⟩

/-- Two maps whose results correspond. -/
theorem mapM_map_map {γ δ : Type} {f : α → Except ε β} {f' : γ → Except ε δ} {s : α → γ}
    {t : β → δ} {as : List α} (h : ∀ a ∈ as, f' (s a) = (f a).map t) :
    (as.map s).mapM f' = (as.mapM f).map (List.map t) := by
  induction as with
  | nil => rfl
  | cons a as ih =>
    rw [List.map_cons, List.mapM_cons, List.mapM_cons, h a List.mem_cons_self,
      ih fun a' ha' => h a' (List.mem_cons_of_mem a ha')]
    cases f a with
    | error e => rfl
    | ok b => cases as.mapM f <;> rfl

/-- What holds of all results, when it says something of each argument. -/
theorem forall_mapM {f : α → Except ε β} {Q : β → Prop} {P : α → Prop} {as : List α} {bs : List β}
    (h : as.mapM f = .ok bs) (hf : ∀ a ∈ as, ∀ b ∈ bs, f a = .ok b → (Q b ↔ P a)) :
    (∀ b ∈ bs, Q b) ↔ ∀ a ∈ as, P a := by
  have hall := mapM_forall₂ h
  clear h
  induction hall with
  | nil => simp
  | @cons a b as bs hab _ ih =>
    rw [List.forall_mem_cons, List.forall_mem_cons,
      hf a List.mem_cons_self b List.mem_cons_self hab]
    refine and_congr_right fun _ => ih fun a' ha' b' hb' => ?_
    exact hf a' (List.mem_cons_of_mem a ha') b' (List.mem_cons_of_mem b hb')

/-! ## Failing -/

/-- The checker fails, with an error of the kind. -/
def Raises (P : ε → Prop) (x : Except ε α) : Prop := ∃ e, x = .error e ∧ P e

section Raises

variable {P : ε → Prop}

@[simp] theorem raises_error {e : ε} : Raises P (.error e : Except ε α) ↔ P e := by
  simp [Raises]

@[simp] theorem raises_ok {a : α} : ¬ Raises P (.ok a : Except ε α) := by
  simp [Raises]

@[simp] theorem raises_pure {a : α} : ¬ Raises P (pure a : Except ε α) := raises_ok

/-- A chain fails in its first step or behind it. -/
theorem raises_bind {x : Except ε α} {f : α → Except ε β} :
    Raises P (x >>= f) ↔ Raises P x ∨ ∃ a, x = .ok a ∧ Raises P (f a) := by
  cases x with
  | error e => simp [Bind.bind, Except.bind]
  | ok a => simp [Bind.bind, Except.bind]

theorem raises_refuse {p : Prop} [Decidable p] {e : ε} :
    Raises P (refuse p e) ↔ p ∧ P e := by
  by_cases hp : p
  · simp [refuse, hp]
  · simp [refuse, hp]

/-- Whether a checker succeeds, when each of its results is the image of
something. -/
theorem exists_eq_ok {γ : Type} {x : Except ε β} {Q : γ → Prop} {g : γ → β}
    (h : ∀ b, x = .ok b ↔ ∃ c, Q c ∧ b = g c) : (∃ b, x = .ok b) ↔ ∃ c, Q c := by
  constructor
  · intro hok
    obtain ⟨b, hb⟩ := hok
    obtain ⟨c, hc, -⟩ := (h b).mp hb
    exact ⟨c, hc⟩
  · intro hex
    obtain ⟨c, hc⟩ := hex
    exact ⟨g c, (h _).mpr ⟨c, hc, rfl⟩⟩

/-- A list of checks fails at the first element that is not accepted. -/
theorem raises_eachFrom {f : Nat → α → Except ε β} {A R : α → Prop}
    (haccept : ∀ i a, (∃ b, f i a = .ok b) ↔ A a) (hraise : ∀ i a, Raises P (f i a) ↔ R a)
    {i : Nat} {as : List α} :
    Raises P (eachFrom f i as) ↔
      ∃ before a after, as = before ++ a :: after ∧ (∀ a' ∈ before, A a') ∧ R a := by
  induction as generalizing i with
  | nil => simp [eachFrom]
  | cons a as ih =>
    simp only [eachFrom, raises_bind, raises_pure, hraise, ih, and_false, exists_false, or_false]
    constructor
    · intro h
      rcases h with hR | ⟨b, hb, before, a', after, rfl, hbefore, hR⟩
      · exact ⟨[], a, as, rfl, by simp, hR⟩
      · have hA : A a := (haccept i a).mp ⟨b, hb⟩
        exact ⟨a :: before, a', after, rfl, List.forall_mem_cons.mpr ⟨hA, hbefore⟩, hR⟩
    · intro h
      obtain ⟨before, a', after, heq, hbefore, hR⟩ := h
      cases before with
      | nil =>
        cases heq
        exact .inl hR
      | cons c before =>
        cases heq
        obtain ⟨hA, hbefore⟩ := List.forall_mem_cons.mp hbefore
        obtain ⟨b, hb⟩ := (haccept i a).mpr hA
        exact .inr ⟨b, hb, before, a', after, rfl, hbefore, hR⟩

end Raises

end Check
