import Mathlib.Logic.Function.Basic

/-!
# Except

Both models return a C-level failure as the error of an `Except`. These are the steps of a `do`
block over it: a bind or map of a success or a failure, and the inversion of a bind or a map
that succeeded, which lets a proof take a computation apart one call at a time.

`Post P E x` says what `x` can end in: a value with `P` or an error with `E`. Its rules for
`bind` and `map` let a proof follow a `do` block call by call, each call cited by its own lemma.
-/

namespace SystemsLab

variable {ε α β : Type}

@[simp] theorem ok_bind (x : α) (f : α → Except ε β) : (Except.ok x >>= f) = f x := rfl
@[simp] theorem error_bind (e : ε) (f : α → Except ε β) :
    (Except.error e >>= f) = Except.error e := rfl
@[simp] theorem map_ok (x : α) (f : α → β) :
    (f <$> Except.ok x : Except ε β) = Except.ok (f x) := rfl
@[simp] theorem map_error (e : ε) (f : α → β) :
    (f <$> Except.error e : Except ε β) = Except.error e := rfl
@[simp] theorem throw_eq (e : ε) : (throw e : Except ε α) = Except.error e := rfl
@[simp] theorem pure_eq (x : α) : (pure x : Except ε α) = Except.ok x := rfl

theorem bind_eq_ok {x : Except ε α} {f : α → Except ε β} {b : β} :
    x >>= f = .ok b ↔ ∃ a, x = .ok a ∧ f a = .ok b := by
  cases x <;> simp

theorem map_eq_ok {x : Except ε α} {f : α → β} {b : β} :
    f <$> x = .ok b ↔ ∃ a, x = .ok a ∧ f a = b := by
  cases x <;> simp

/-- A value with `P`, or an error with `E`. An inductive, so that elaborating against it never
runs the computation it is about. -/
inductive Post (P : α → Prop) (E : ε → Prop) : Except ε α → Prop
  | ok {a : α} : P a → Post P E (.ok a)
  | error {e : ε} : E e → Post P E (.error e)

namespace Post

variable {P : α → Prop} {Q : β → Prop} {E : ε → Prop}

theorem of_ok {a : α} (h : Post P E (.ok a)) : P a := by
  cases h
  assumption

theorem of_error {e : ε} (h : Post P E (.error e)) : E e := by
  cases h
  assumption

theorem of_eq_ok {x : Except ε α} {a : α} (hx : Post P E x) (h : x = .ok a) : P a := by
  subst h
  exact hx.of_ok

theorem imp {P' : α → Prop} {E' : ε → Prop} {x : Except ε α} (hx : Post P E x)
    (hP : ∀ a, P a → P' a) (hE : ∀ e, E e → E' e) : Post P' E' x := by
  cases hx with
  | ok ha => exact .ok (hP _ ha)
  | error he => exact .error (hE _ he)

theorem ite {c : Prop} [Decidable c] {x y : Except ε α} (hx : c → Post P E x)
    (hy : ¬c → Post P E y) : Post P E (if c then x else y) := by
  by_cases h : c
  · rw [if_pos h]
    exact hx h
  · rw [if_neg h]
    exact hy h

theorem bind {x : Except ε α} {f : α → Except ε β} (hx : Post P E x)
    (hf : ∀ a, P a → Post Q E (f a)) : Post Q E (x >>= f) := by
  cases hx with
  | ok ha => exact hf _ ha
  | error he => exact .error he

theorem map {x : Except ε α} {f : α → β} (hx : Post P E x) (hf : ∀ a, P a → Q (f a)) :
    Post Q E (f <$> x) := by
  cases hx with
  | ok ha => exact .ok (hf _ ha)
  | error he => exact .error he

end Post

end SystemsLab
