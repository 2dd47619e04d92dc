/-!
# Support — Outcome

What a call of a program with `Result`s and panics comes back with: a value, an error that the
caller handles, or a panic that unwinds past every caller.  `bind` runs the rest of the call
only on a value, so both failures propagate.
-/

/-- The result of a call: a value, the error of a `Result`, or a panic. -/
inductive Outcome (ε α : Type) where
  | ok (a : α)
  | err (e : ε)
  | panic
  deriving DecidableEq, Repr

namespace Outcome

variable {ε α β : Type}

/-- Go on with the value; an error and a panic propagate. -/
def bind : Outcome ε α → (α → Outcome ε β) → Outcome ε β
  | .ok a,  f => f a
  | .err e, _ => .err e
  | .panic, _ => .panic

instance : Monad (Outcome ε) where
  pure := .ok
  bind := bind

@[simp] theorem pure_eq (a : α) : (pure a : Outcome ε α) = .ok a := rfl

@[simp] theorem ok_bind (a : α) (f : α → Outcome ε β) : (.ok a : Outcome ε α) >>= f = f a := rfl

@[simp] theorem err_bind (e : ε) (f : α → Outcome ε β) :
    (.err e : Outcome ε α) >>= f = .err e := rfl

@[simp] theorem panic_bind (f : α → Outcome ε β) :
    (.panic : Outcome ε α) >>= f = .panic := rfl

/-- **Inversion of `bind`.**  A value comes out only through a value of the first call. -/
theorem bind_eq_ok {x : Outcome ε α} {f : α → Outcome ε β} {b : β} :
    (x >>= f) = .ok b ↔ ∃ a, x = .ok a ∧ f a = .ok b := by
  cases x with
  | ok a => simp
  | err e => simp
  | panic => simp

/-- An error comes from the first call, or from what follows its value. -/
theorem bind_eq_err {x : Outcome ε α} {f : α → Outcome ε β} {e : ε} :
    (x >>= f) = .err e ↔ x = .err e ∨ ∃ a, x = .ok a ∧ f a = .err e := by
  cases x with
  | ok a => simp
  | err e' => simp
  | panic => simp

/-- `Option::ok_or`. -/
def ofOption (e : ε) : Option α → Outcome ε α
  | some a => .ok a
  | none   => .err e

@[simp] theorem ofOption_eq_ok {e : ε} {o : Option α} {a : α} :
    ofOption e o = .ok a ↔ o = some a := by
  cases o <;> simp [ofOption]

theorem bind_ne_panic {x : Outcome ε α} {f : α → Outcome ε β} (hx : x ≠ .panic)
    (hf : ∀ a, f a ≠ .panic) : x >>= f ≠ .panic := by
  cases x with
  | ok a => exact hf a
  | err e => exact fun h => by cases h
  | panic => exact absurd rfl hx

theorem ofOption_ne_panic (e : ε) (o : Option α) : ofOption e o ≠ .panic := by
  cases o <;> simp [ofOption]

/-- Every error of the call satisfies `P`. -/
def Fails (P : ε → Prop) (x : Outcome ε α) : Prop := ∀ e, x = .err e → P e

@[simp] theorem fails_panic (P : ε → Prop) : Fails P (.panic : Outcome ε α) := fun _ h => by
  cases h

theorem Fails.bind {P : ε → Prop} {x : Outcome ε α} {f : α → Outcome ε β} (hx : Fails P x)
    (hf : ∀ a, Fails P (f a)) : Fails P (x >>= f) := by
  cases x with
  | ok a => exact hf a
  | err e => exact fun _ he => hx _ (by cases he; rfl)
  | panic => exact fails_panic P

end Outcome
