import Mathlib.Data.List.Basic

/-!
# Computations that record their calls

A procedure that calls into its environment, may raise, and may handle what
was raised. Its meaning is the list of the calls it made, oldest first, and
how it ended; the calls made before an exception stay made. The outcome of a
call is given from outside, so a statement for all outcomes is a statement
about every behaviour of the environment.
-/

/-- The calls made and the way it ended. -/
structure Traced (κ ε α : Type) where
  calls : List κ
  result : Except ε α

namespace Traced

variable {κ ε α β : Type}

/-- Make one call, with the given outcome. -/
def call (c : κ) (outcome : Except ε α) : Traced κ ε α := ⟨[c], outcome⟩

/-- End with the given outcome, making no call. -/
def lift (outcome : Except ε α) : Traced κ ε α := ⟨[], outcome⟩

protected def bind (x : Traced κ ε α) (f : α → Traced κ ε β) : Traced κ ε β :=
  match x.result with
  | .ok a => ⟨x.calls ++ (f a).calls, (f a).result⟩
  | .error e => ⟨x.calls, .error e⟩

instance : Monad (Traced κ ε) where
  pure a := ⟨[], .ok a⟩
  bind := Traced.bind

/-- `try: x except BaseException: handler`. -/
def handle (x : Traced κ ε α) (handler : ε → Traced κ ε α) : Traced κ ε α :=
  match x.result with
  | .ok a => ⟨x.calls, .ok a⟩
  | .error e => ⟨x.calls ++ (handler e).calls, (handler e).result⟩

@[simp] theorem pure_calls (a : α) : (pure a : Traced κ ε α).calls = [] := rfl

@[simp] theorem pure_result (a : α) : (pure a : Traced κ ε α).result = .ok a := rfl

@[simp] theorem call_calls (c : κ) (o : Except ε α) : (call c o).calls = [c] := rfl

@[simp] theorem call_result (c : κ) (o : Except ε α) : (call c o).result = o := rfl

@[simp] theorem lift_calls (o : Except ε α) : (lift o : Traced κ ε α).calls = [] := rfl

@[simp] theorem lift_result (o : Except ε α) : (lift o : Traced κ ε α).result = o := rfl

/-- Going on after a part that returned. -/
theorem bind_ok {x : Traced κ ε α} {a : α} (h : x.result = .ok a) (f : α → Traced κ ε β) :
    (x >>= f).calls = x.calls ++ (f a).calls ∧ (x >>= f).result = (f a).result := by
  show (Traced.bind x f).calls = _ ∧ (Traced.bind x f).result = _
  rw [Traced.bind, h]
  exact ⟨rfl, rfl⟩

/-- Nothing follows a part that raised. -/
theorem bind_error {x : Traced κ ε α} {e : ε} (h : x.result = .error e) (f : α → Traced κ ε β) :
    (x >>= f).calls = x.calls ∧ (x >>= f).result = .error e := by
  show (Traced.bind x f).calls = _ ∧ (Traced.bind x f).result = _
  rw [Traced.bind, h]
  exact ⟨rfl, rfl⟩

/-- Both parts of what returned have returned. -/
theorem of_bind_ok {x : Traced κ ε α} {f : α → Traced κ ε β} {r : β}
    (h : (x >>= f).result = .ok r) : ∃ a, x.result = .ok a ∧ (f a).result = .ok r := by
  cases hx : x.result with
  | ok a => exact ⟨a, rfl, (bind_ok hx f).2.symm.trans h⟩
  | error e =>
    rw [(bind_error hx f).2] at h
    cases h

/-- The calls of a part stay at the front. -/
theorem bind_calls (x : Traced κ ε α) (f : α → Traced κ ε β) :
    ∃ after, (x >>= f).calls = x.calls ++ after := by
  cases h : x.result with
  | ok a => exact ⟨(f a).calls, (bind_ok h f).1⟩
  | error e => exact ⟨[], by rw [(bind_error h f).1, List.append_nil]⟩

theorem handle_ok {x : Traced κ ε α} {a : α} (h : x.result = .ok a)
    (handler : ε → Traced κ ε α) :
    (x.handle handler).calls = x.calls ∧ (x.handle handler).result = .ok a := by
  rw [handle, h]
  exact ⟨rfl, rfl⟩

theorem handle_error {x : Traced κ ε α} {e : ε} (h : x.result = .error e)
    (handler : ε → Traced κ ε α) :
    (x.handle handler).calls = x.calls ++ (handler e).calls ∧
      (x.handle handler).result = (handler e).result := by
  rw [handle, h]
  exact ⟨rfl, rfl⟩

end Traced
