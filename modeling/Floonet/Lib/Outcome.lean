/-!
# Fallible code that may also panic

A call returns a value, returns an error, or never returns because an `unwrap`
failed. The three are kept apart so that "no panic" is a statement.
-/

/-- The result of running a fallible function. -/
inductive Outcome (ε α : Type) : Type where
  /-- `Ok(value)` -/
  | ok : α → Outcome ε α
  /-- `Err(error)` -/
  | err : ε → Outcome ε α
  /-- a failed `unwrap` -/
  | panic : Outcome ε α
  deriving DecidableEq

namespace Outcome

variable {ε α β : Type}

/-- Sequencing: the first error or panic ends the run. -/
protected def bind : Outcome ε α → (α → Outcome ε β) → Outcome ε β
  | ok a, f => f a
  | err e, _ => err e
  | panic, _ => panic

instance : Monad (Outcome ε) where
  pure := ok
  bind := Outcome.bind

@[simp] theorem ok_bind (a : α) (f : α → Outcome ε β) : (ok a : Outcome ε α) >>= f = f a := rfl

@[simp] theorem err_bind (e : ε) (f : α → Outcome ε β) : (err e : Outcome ε α) >>= f = err e := rfl

@[simp] theorem panic_bind (f : α → Outcome ε β) : (panic : Outcome ε α) >>= f = panic := rfl

@[simp] theorem map_ok (f : α → β) (a : α) : f <$> (ok a : Outcome ε α) = ok (f a) := rfl

@[simp] theorem map_err (f : α → β) (e : ε) : f <$> (err e : Outcome ε α) = err e := rfl

@[simp] theorem map_panic (f : α → β) : f <$> (panic : Outcome ε α) = panic := rfl

theorem lawfulMonad : LawfulMonad (Outcome ε) := by
  refine LawfulMonad.mk' _ ?_ ?_ ?_
  · rintro α (a | e | _) <;> rfl
  · exact fun _ _ => rfl
  · rintro α β γ (a | e | _) f g <;> rfl

/-- Inversion for a run that panics. -/
theorem bind_eq_panic {m : Outcome ε α} {f : α → Outcome ε β} :
    m >>= f = panic ↔ m = panic ∨ ∃ a, m = ok a ∧ f a = panic := by
  cases m <;> simp

/-- Inversion for a run that returns a value. -/
theorem bind_eq_ok {m : Outcome ε α} {f : α → Outcome ε β} {b : β} (h : m >>= f = ok b) :
    ∃ a, m = ok a ∧ f a = ok b := by
  cases m with
  | ok a => exact ⟨a, rfl, h⟩
  | err e => cases h
  | panic => cases h

/-- The value, if there is one. -/
def toOption : Outcome ε α → Option α
  | ok a => some a
  | err _ => none
  | panic => none

/-- A call that cannot panic. -/
def ofExcept : Except ε α → Outcome ε α
  | .ok a => ok a
  | .error e => err e

/-- `unwrap`. -/
def unwrap : Option α → Outcome ε α
  | some a => ok a
  | none => panic

end Outcome
