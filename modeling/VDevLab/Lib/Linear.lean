import VDevLab.Lib.Lts

/-!
# Linearizability

Calls on a shared object overlap. A history records when each was invoked
and what it returned; a linearization puts every call that returned, and
some of the others, in one sequence which a sequential object allows and in
which a call that returned before another was invoked comes first.

Linearizations are built along a run. A call is appended at the step where
it takes effect. A call that changes nothing may be appended again later:
the earlier entry goes, and the sequence is still one of the object. So a
call that only observes needs no prophecy of which observation is its last.
-/

universe u v w x

namespace Linear

/-- An object without concurrency: which results an operation may have in a
state, and the state after it. -/
structure Object (σ : Type u) (Op : Type v) (Res : Type w) where
  step : σ → Op → Res → σ → Prop

inductive Event (ι : Type x) (Op : Type v) (Res : Type w)
  | invoke (i : ι) (op : Op)
  | respond (i : ι) (res : Res)

/-- A call with the result that it has in a linearization. -/
structure Entry (ι : Type x) (Op : Type v) (Res : Type w) where
  id : ι
  op : Op
  res : Res

variable {σ : Type u} {Op : Type v} {Res : Type w} {ι : Type x}

/-- The entries lead from one state of the object to another. -/
inductive Object.Legal (obj : Object σ Op Res) : σ → List (Entry ι Op Res) → σ → Prop
  | nil {s} : Legal obj s [] s
  | snoc {s L t e u} : Legal obj s L t → obj.step t e.op e.res u → Legal obj s (L ++ [e]) u

/-- The object as long as its state has a property. -/
def Object.within (obj : Object σ Op Res) (p : σ → Prop) : Object σ Op Res :=
  ⟨fun s op r t => p s ∧ obj.step s op r t⟩

/-- The entry leaves the object as it is, wherever it stands. -/
def Object.Silent (obj : Object σ Op Res) (e : Entry ι Op Res) : Prop :=
  ∀ s t, obj.step s e.op e.res t → t = s

/-- `L` is a linearization of the history `H` that ends in the state `s`. -/
structure Linearization (obj : Object σ Op Res) (s₀ : σ) (H : List (Event ι Op Res))
    (L : List (Entry ι Op Res)) (s : σ) : Prop where
  legal : obj.Legal s₀ L s
  unique : (L.map Entry.id).Nodup
  invoked : ∀ e ∈ L, Event.invoke e.id e.op ∈ H
  complete : ∀ i r, Event.respond i r ∈ H → ∃ e ∈ L, e.id = i ∧ e.res = r
  /-- What returned before a call was invoked comes before it. -/
  realTime : ∀ H₁ H₂ i r j op, H = H₁ ++ Event.invoke j op :: H₂ → Event.respond i r ∈ H₁ →
    ∀ L₁ L₂ e, L = L₁ ++ e :: L₂ → e.id = j → ∃ e' ∈ L₁, e'.id = i

variable {obj : Object σ Op Res} {s₀ s t : σ} {H : List (Event ι Op Res)}
  {L : List (Entry ι Op Res)} {i : ι} {op : Op} {r : Res}

/-- Silent entries can be left out. -/
theorem Object.Legal.filter {p : Entry ι Op Res → Bool} (h : obj.Legal s L t)
    (hp : ∀ e ∈ L, p e = false → obj.Silent e) : obj.Legal s (L.filter p) t := by
  induction h with
  | nil => exact .nil
  | @snoc L t e u hl hs ih =>
    have hrest : obj.Legal s (L.filter p) t := by
      apply ih
      intro e' he'
      exact hp e' (List.mem_append_left _ he')
    rw [List.filter_append]
    by_cases hpe : p e = true
    · rw [List.filter_cons_of_pos hpe]
      exact hrest.snoc hs
    · have hsame : u = t := hp e (by simp) (by simpa using hpe) t u hs
      rw [List.filter_cons_of_neg hpe, hsame]
      simpa using hrest

/-- The state in the middle of a sequence. -/
theorem Object.Legal.cut {L₁ L₂ : List (Entry ι Op Res)} (h : obj.Legal s L t)
    (hL : L = L₁ ++ L₂) : ∃ m, obj.Legal s L₁ m ∧ obj.Legal m L₂ t := by
  induction h generalizing L₂ with
  | nil =>
    obtain ⟨rfl, rfl⟩ := List.append_eq_nil_iff.mp hL.symm
    exact ⟨s, .nil, .nil⟩
  | @snoc L t e u hl hs ih =>
    rcases List.eq_nil_or_concat L₂ with rfl | ⟨L₂, e', rfl⟩
    · rw [List.append_nil] at hL
      exact ⟨u, hL ▸ hl.snoc hs, .nil⟩
    · rw [List.concat_eq_append, ← List.append_assoc] at hL
      obtain ⟨hrest, hlast⟩ := List.append_inj' hL rfl
      cases hlast
      obtain ⟨m, hm, hrest⟩ := ih hrest
      exact ⟨m, hm, by rw [List.concat_eq_append]; exact hrest.snoc hs⟩

/-- One entry in a sequence: it is a step from the state before it. -/
theorem Object.Legal.entry {L₁ L₂ : List (Entry ι Op Res)} {e : Entry ι Op Res}
    (h : obj.Legal s L t) (hL : L = L₁ ++ e :: L₂) :
    ∃ m n, obj.Legal s L₁ m ∧ obj.step m e.op e.res n ∧ obj.Legal n L₂ t := by
  have hcut : L = (L₁ ++ [e]) ++ L₂ := by simp [hL]
  obtain ⟨n, hfront, hback⟩ := h.cut hcut
  generalize hfirst : L₁ ++ [e] = L' at hfront
  cases hfront with
  | nil => simp at hfirst
  | snoc hl hs =>
    obtain ⟨rfl, hlast⟩ := List.append_inj' hfirst rfl
    cases hlast
    exact ⟨_, n, hl, hs, hback⟩

/-- An object that allows, through `f`, all that another allows. -/
theorem Object.Legal.map {τ : Type*} {obj' : Object τ Op Res} {f : σ → τ}
    (hf : ∀ s op r t, obj.step s op r t → obj'.step (f s) op r (f t))
    (h : obj.Legal s L t) : obj'.Legal (f s) L (f t) := by
  induction h with
  | nil => exact .nil
  | snoc _ hs ih => exact ih.snoc (hf _ _ _ _ hs)

theorem Linearization.map {τ : Type*} {obj' : Object τ Op Res} {f : σ → τ}
    (hf : ∀ s op r t, obj.step s op r t → obj'.step (f s) op r (f t))
    (h : Linearization obj s₀ H L s) : Linearization obj' (f s₀) H L (f s) :=
  ⟨h.legal.map hf, h.unique, h.invoked, h.complete, h.realTime⟩

theorem Linearization.nil : Linearization obj s₀ ([] : List (Event ι Op Res)) [] s₀ where
  legal := .nil
  unique := List.nodup_nil
  invoked := by simp
  complete := by simp
  realTime := by simp

/-- A new call is not in the sequence yet. -/
theorem Linearization.invoke (h : Linearization obj s₀ H L s)
    (hfresh : ∀ op, Event.invoke i op ∉ H) :
    Linearization obj s₀ (H ++ [.invoke i op]) L s where
  legal := h.legal
  unique := h.unique
  invoked := by
    intro e he
    exact List.mem_append_left _ (h.invoked e he)
  complete := by
    intro k r hk
    apply h.complete k r
    simpa using hk
  realTime := by
    intro H₁ H₂ k r j op' hH hk L₁ L₂ e hL hj
    rcases Lts.concat_eq_cut.mp hH with ⟨-, -, heq⟩ | ⟨H₃, -, hcut⟩
    · -- the entry would be one of the call that has just been invoked
      cases heq
      have hin := h.invoked e (by simp [hL])
      rw [hj] at hin
      exact absurd hin (hfresh e.op)
    · exact h.realTime H₁ H₃ k r j op' hcut hk L₁ L₂ e hL hj

/-- A call returns the result of its entry. -/
theorem Linearization.respond (h : Linearization obj s₀ H L s)
    (he : ⟨i, op, r⟩ ∈ L) : Linearization obj s₀ (H ++ [.respond i r]) L s where
  legal := h.legal
  unique := h.unique
  invoked := by
    intro e he
    exact List.mem_append_left _ (h.invoked e he)
  complete := by
    intro k r' hk
    rcases List.mem_append.mp hk with hk | hk
    · exact h.complete k r' hk
    · cases List.mem_singleton.mp hk
      exact ⟨_, he, rfl, rfl⟩
  realTime := by
    intro H₁ H₂ k r' j op' hH hk L₁ L₂ e hL hj
    rcases Lts.concat_eq_cut.mp hH with ⟨-, -, heq⟩ | ⟨H₃, -, hcut⟩
    · cases heq
    · exact h.realTime H₁ H₃ k r' j op' hcut hk L₁ L₂ e hL hj

section Commit

variable [DecidableEq ι]

/-- The sequence without the entry of a call. -/
def without (i : ι) (L : List (Entry ι Op Res)) : List (Entry ι Op Res) :=
  L.filter fun e => decide (e.id ≠ i)

theorem mem_without {e : Entry ι Op Res} : e ∈ without i L ↔ e ∈ L ∧ e.id ≠ i := by
  simp [without]

/-- The entry of a call is put, or put again, at the end. -/
theorem Linearization.commit (h : Linearization obj s₀ H L s)
    (hinvoked : Event.invoke i op ∈ H) (hpending : ∀ r, Event.respond i r ∉ H)
    (hsilent : ∀ e ∈ L, e.id = i → obj.Silent e) (hstep : obj.step s op r t) :
    Linearization obj s₀ H (without i L ++ [⟨i, op, r⟩]) t where
  legal := by
    refine Object.Legal.snoc ?_ hstep
    apply h.legal.filter
    intro e he hp
    exact hsilent e he (by simpa using hp)
  unique := by
    have hsub : ((without i L).map Entry.id).Nodup :=
      h.unique.sublist (List.Sublist.map _ List.filter_sublist)
    rw [List.map_append, List.nodup_append]
    refine ⟨hsub, by simp, ?_⟩
    intro a ha b hb
    obtain ⟨e, he, rfl⟩ := List.mem_map.mp ha
    have hb' : b = i := by simpa using hb
    rw [hb']
    exact (mem_without.mp he).2
  invoked := by
    intro e he
    rcases List.mem_append.mp he with he | he
    · exact h.invoked e (mem_without.mp he).1
    · cases List.mem_singleton.mp he
      exact hinvoked
  complete := by
    intro k r' hk
    obtain ⟨e, he, hid, hres⟩ := h.complete k r' hk
    have hne : e.id ≠ i := by
      intro heq
      rw [hid] at heq
      subst heq
      exact hpending r' hk
    exact ⟨e, List.mem_append_left _ (mem_without.mpr ⟨he, hne⟩), hid, hres⟩
  realTime := by
    intro H₁ H₂ k r' j op' hH hk L₁ L₂ e hL hj
    have hkH : Event.respond k r' ∈ H := by
      rw [hH]
      exact List.mem_append_left _ hk
    have hki : k ≠ i := by
      intro heq
      subst heq
      exact hpending r' hkH
    rcases Lts.concat_eq_cut.mp hL with ⟨-, rfl, -⟩ | ⟨L₃, -, hcut⟩
    · -- the new entry: all that returned is in front of it
      obtain ⟨e', he', hid, -⟩ := h.complete k r' hkH
      refine ⟨e', mem_without.mpr ⟨he', ?_⟩, hid⟩
      rw [hid]
      exact hki
    · -- an older entry: the same cut of the old sequence
      obtain ⟨M₁, M₂, hM, hM₁, hM₂⟩ := List.filter_eq_append_iff.mp hcut
      obtain ⟨N₁, N₂, hN, hN₁, -, -⟩ := List.filter_eq_cons_iff.mp hM₂
      have hold : L = (M₁ ++ N₁) ++ e :: N₂ := by
        rw [hM, hN, List.append_assoc]
      obtain ⟨e', he', hid⟩ := h.realTime H₁ H₂ k r' j op' hH hk _ _ e hold hj
      refine ⟨e', ?_, hid⟩
      have hkeep : decide (e'.id ≠ i) = true := by
        rw [hid]
        exact decide_eq_true hki
      rcases List.mem_append.mp he' with he' | he'
      · rw [← hM₁]
        exact List.mem_filter.mpr ⟨he', hkeep⟩
      · exact absurd hkeep (hN₁ e' he')

end Commit

end Linear
