import Mathlib.Data.List.Basic

/-!
# Labelled transition systems with executable steps

A system is a set of initial states and a partial step function; the label
of a step carries everything the environment decides (which party moves,
what a signal or a user buffer does), so that one `Option`-valued function
is the whole step relation and a concrete run can be replayed.

A run keeps its moves, oldest first. Quantities that a system only has
over time (how much was ever injected, what was handed over since the last
reset) are functions of that list; nothing has to be added to the state.
-/

universe u v

/-- Initial states and the step function. -/
structure Lts (σ : Type u) (ℓ : Type v) where
  init : σ → Prop
  step : σ → ℓ → Option σ

/-- One step that was taken: the states around it and its label. -/
structure Move (σ : Type u) (ℓ : Type v) where
  pre : σ
  label : ℓ
  post : σ

namespace Lts

variable {σ : Type u} {ℓ : Type v}

/-- `Run M tr s`: the moves `tr` lead from an initial state to `s`. -/
inductive Run (M : Lts σ ℓ) : List (Move σ ℓ) → σ → Prop
  | start {s} : M.init s → Run M [] s
  | snoc {tr s l t} : Run M tr s → M.step s l = some t → Run M (tr ++ [⟨s, l, t⟩]) t

def Reachable (M : Lts σ ℓ) (s : σ) : Prop := ∃ tr, Run M tr s

/-- The same system started in `s`: its runs are the continuations from `s`. -/
def startingAt (M : Lts σ ℓ) (s : σ) : Lts σ ℓ := ⟨(· = s), M.step⟩

variable {M : Lts σ ℓ}

/-- The invariant rule for properties of a state together with its history. -/
theorem Run.induct {P : List (Move σ ℓ) → σ → Prop}
    (hinit : ∀ s, M.init s → P [] s)
    (hstep : ∀ tr s l t, Run M tr s → P tr s → M.step s l = some t →
      P (tr ++ [⟨s, l, t⟩]) t)
    {tr s} (h : Run M tr s) : P tr s := by
  induction h with
  | start hs => exact hinit _ hs
  | snoc hr hl ih => exact hstep _ _ _ _ hr ih hl

/-- The invariant rule for properties of the state alone. -/
theorem Run.invariant {I : σ → Prop} (hinit : ∀ s, M.init s → I s)
    (hstep : ∀ s l t, I s → M.step s l = some t → I t)
    {tr s} (h : Run M tr s) : I s :=
  h.induct (P := fun _ s => I s) hinit (fun _ s l t _ hi hl => hstep s l t hi hl)

/-- Where a history with one more element can be cut. -/
theorem concat_eq_cut {α : Type*} {l before after : List α} {a b : α} :
    l ++ [a] = before ++ b :: after ↔
      (after = [] ∧ before = l ∧ b = a) ∨
      ∃ after', after = after' ++ [a] ∧ l = before ++ b :: after' := by
  constructor
  · intro h
    rcases List.eq_nil_or_concat after with rfl | ⟨after', c, rfl⟩
    · have := List.append_inj' h rfl
      exact .inl ⟨rfl, this.1.symm, by simpa using this.2.symm⟩
    · have h' : l ++ [a] = (before ++ b :: after') ++ [c] := by simpa using h
      have := List.append_inj' h' rfl
      have hc : a = c := by simpa using this.2
      exact .inr ⟨after', by rw [hc]; simp, this.1⟩
  · intro h
    rcases h with ⟨rfl, rfl, rfl⟩ | ⟨after', rfl, rfl⟩
    · rfl
    · simp

/-- A run cut at one of its moves: what led to it, and the step itself. -/
theorem Run.at_move {tr s} (h : Run M tr s) : ∀ {before m after},
    tr = before ++ m :: after → Run M before m.pre ∧ M.step m.pre m.label = some m.post := by
  induction h with
  | start =>
    intro before m after heq
    simp at heq
  | @snoc tr s l t hr hl ih =>
    intro before m after heq
    rcases concat_eq_cut.mp heq with ⟨-, rfl, rfl⟩ | ⟨after', -, heq'⟩
    · exact ⟨hr, hl⟩
    · exact ih heq'

/-- Every recorded move is a step of the system, from a state that was
itself reached. -/
theorem Run.move_step {tr s} (h : Run M tr s) {m} (hm : m ∈ tr) :
    M.step m.pre m.label = some m.post ∧ M.Reachable m.pre := by
  induction h with
  | start => simp at hm
  | @snoc tr s l t hr hl ih =>
    rcases List.mem_append.mp hm with hm | hm
    · exact ih hm
    · cases List.mem_singleton.mp hm
      exact ⟨hl, tr, hr⟩

/-- A property of single steps from reachable states holds of every move
of a run. -/
theorem Run.forall_moves {P : Move σ ℓ → Prop}
    (hstep : ∀ s l t, M.Reachable s → M.step s l = some t → P ⟨s, l, t⟩)
    {tr s} (h : Run M tr s) : ∀ m ∈ tr, P m := by
  intro m hm
  obtain ⟨hl, hr⟩ := h.move_step hm
  exact hstep _ _ _ hr hl

/-- A run goes on with a run from where it ended. -/
theorem Run.append {tr s tr' t} (h : Run M tr s) (h' : Run (M.startingAt s) tr' t) :
    Run M (tr ++ tr') t := by
  induction h' with
  | start heq =>
    cases heq
    simpa using h
  | snoc hr hl ih =>
    rw [← List.append_assoc]
    exact ih.snoc hl

/-- The states of a run: the last one, and those that its moves left. -/
def Visited (tr : List (Move σ ℓ)) (s x : σ) : Prop := x = s ∨ ∃ m ∈ tr, x = m.pre

theorem visited_concat {tr : List (Move σ ℓ)} {m : Move σ ℓ} {x : σ}
    (h : Visited (tr ++ [m]) m.post x) : x = m.post ∨ Visited tr m.pre x := by
  rcases h with rfl | ⟨k, hk, rfl⟩
  · exact .inl rfl
  · rcases List.mem_append.mp hk with hk | hk
    · exact .inr (.inr ⟨k, hk, rfl⟩)
    · cases List.mem_singleton.mp hk
      exact .inr (.inl rfl)

/-- Execute a list of labels, recording the moves. -/
def replay (M : Lts σ ℓ) : σ → List ℓ → Option (List (Move σ ℓ) × σ)
  | s, [] => some ([], s)
  | s, l :: ls =>
    match M.step s l with
    | none => none
    | some t => (replay M t ls).map fun (tr, u) => (⟨s, l, t⟩ :: tr, u)

theorem Run.replay {tr s} (h : Run M tr s) : ∀ {ls tr' t},
    M.replay s ls = some (tr', t) → Run M (tr ++ tr') t := by
  intro ls
  induction ls generalizing tr s with
  | nil =>
    intro tr' t ht
    simp only [Lts.replay, Option.some.injEq, Prod.mk.injEq] at ht
    obtain ⟨rfl, rfl⟩ := ht
    simpa using h
  | cons l ls ih =>
    intro tr' t ht
    cases hl : M.step s l with
    | none => simp [Lts.replay, hl] at ht
    | some u =>
      simp only [Lts.replay, hl, Option.map_eq_some_iff] at ht
      obtain ⟨⟨tr'', w⟩, hrest, heq⟩ := ht
      simp only [Prod.mk.injEq] at heq
      obtain ⟨rfl, rfl⟩ := heq
      have := ih (h.snoc hl) hrest
      simpa using this

/-- A replay from an initial state is a run. -/
theorem run_of_replay {s ls p} (hs : M.init s) (h : M.replay s ls = some p) : Run M p.1 p.2 := by
  obtain ⟨tr, t⟩ := p
  have hrun : Run M ([] ++ tr) t := (Run.start hs).replay h
  simpa using hrun

/-- What a replay computes holds of a run. -/
theorem exists_run_of_replay {β : Type*} {s ls b} {f : List (Move σ ℓ) × σ → β} (hs : M.init s)
    (h : (M.replay s ls).map f = some b) : ∃ tr t, Run M tr t ∧ f (tr, t) = b := by
  obtain ⟨p, hp, hb⟩ := Option.map_eq_some_iff.mp h
  exact ⟨p.1, p.2, run_of_replay hs hp, hb⟩

end Lts
