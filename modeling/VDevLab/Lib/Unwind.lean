import Mathlib.Data.List.Basic

/-!
# Taking resources in order, and giving them back

Set-up code takes one resource after the other. When one of them cannot be
had, it gives back those it has, latest first, and fails. Tear-down gives all
of them back in the same order.

`Safe` says of the rest of such a code that it never takes what it holds,
never gives back what it does not hold or holds below something else, and
ends with `target`. At every moment what is held is an initial part of the
order.
-/

namespace Unwind

/-- One call that takes a resource or gives it back. -/
inductive Action (R : Type*)
  | acquire (r : R)
  | release (r : R)
  deriving DecidableEq, Repr

variable {R : Type*} [DecidableEq R]

/-- What is held afterwards, latest first, unless the call is wrong. -/
def Action.execute (held : List R) : Action R → Option (List R)
  | .acquire r => if r ∈ held then none else some (r :: held)
  | .release r =>
      match held with
      | [] => none
      | top :: rest => if top = r then some rest else none

/-- Take the resources `rs`; at the first that fails give back what is held.
The error is that of the failure. -/
def acquireAll (fails : R → Option Int) : List R → List R → List (Action R) × Int
  | _, [] => ([], 0)
  | held, r :: rs =>
      match fails r with
      | some e => (held.map .release, -e)
      | none =>
          let rest := acquireAll fails (r :: held) rs
          (.acquire r :: rest.1, rest.2)

/-- No call of `todo` is wrong, and in the end `target` is held. -/
def Safe (order target : List R) : List R → List (Action R) → Prop
  | held, [] => held = target
  | held, a :: todo => ∃ held', a.execute held = some held' ∧ held' <:+ order ∧
      Safe order target held' todo

variable {order held : List R}

/-- Giving back everything, latest first. -/
theorem safe_release (h : held <:+ order) : Safe order [] held (held.map .release) := by
  induction held with
  | nil => rfl
  | cons r rest ih =>
    have hrest : rest <:+ order := (List.suffix_cons r rest).trans h
    exact ⟨rest, by simp [Action.execute], hrest, ih hrest⟩

/-- Taking what is left of the order, with a way back from every failure. -/
theorem safe_acquireAll (fails : R → Option Int) {rs : List R} (hnodup : order.Nodup)
    (h : rs.reverse ++ held = order) :
    Safe order (if ∀ r ∈ rs, fails r = none then order else []) held
      (acquireAll fails held rs).1 := by
  induction rs generalizing held with
  | nil =>
    rw [if_pos (by simp)]
    exact h
  | cons r rs ih =>
    have hsuffix : r :: held <:+ order := ⟨rs.reverse, by simpa using h⟩
    cases hr : fails r with
    | some e =>
      rw [if_neg (by simp [hr])]
      simp only [acquireAll, hr]
      exact safe_release ((List.suffix_cons r held).trans hsuffix)
    | none =>
      have hfresh : r ∉ held := (List.nodup_cons.mp (hnodup.sublist hsuffix.sublist)).1
      have hcut : rs.reverse ++ r :: held = order := by simpa using h
      have hnext := ih hcut
      simp only [acquireAll, hr]
      refine ⟨r :: held, by simp [Action.execute, hfresh], hsuffix, ?_⟩
      simpa [hr] using hnext

omit [DecidableEq R] in
/-- The error is that of the first resource that cannot be had. -/
theorem acquireAll_result (fails : R → Option Int) (rs held : List R) :
    (acquireAll fails held rs).2 = ((rs.findSome? fails).map (- ·)).getD 0 := by
  induction rs generalizing held with
  | nil => rfl
  | cons r rs ih =>
    cases hr : fails r with
    | some e => simp [acquireAll, hr]
    | none => simp [acquireAll, hr, ih]

end Unwind
