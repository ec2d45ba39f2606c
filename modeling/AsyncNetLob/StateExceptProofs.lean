import Mathlib.Logic.Basic

/-! # Running imperative programs step by step

    A program over a mutable state that may throw is an `EStateM ε σ α`: a
    throw keeps the state reached so far, as an exception that is caught
    does.  The rules below run a program one statement at a time: when the
    first statement returns, the program continues in the state it left
    (`bind_ok`); when it throws, so does the program (`bind_error`).

    `lens` runs a program over a part of the state. -/

namespace StateExcept

variable {ε σ τ α β : Type}

/-- Sequencing after a statement that returns. -/
theorem bind_ok {x : EStateM ε σ α} {f : α → EStateM ε σ β} {s s' : σ} {a : α}
    (h : x s = .ok a s') : (x >>= f) s = f a s' := by
  show EStateM.bind x f s = f a s'
  rw [EStateM.bind, h]

/-- Sequencing after a statement that throws. -/
theorem bind_error {x : EStateM ε σ α} {f : α → EStateM ε σ β} {s s' : σ}
    {e : ε} (h : x s = .error e s') : (x >>= f) s = .error e s' := by
  show EStateM.bind x f s = .error e s'
  rw [EStateM.bind, h]

@[simp] theorem pure_ok (a : α) (s : σ) :
    (pure a : EStateM ε σ α) s = .ok a s := rfl

@[simp] theorem throw_error (e : ε) (s : σ) :
    (throw e : EStateM ε σ α) s = .error e s := rfl

@[simp] theorem get_ok (s : σ) : (get : EStateM ε σ σ) s = .ok s s := rfl

@[simp] theorem set_ok (s s' : σ) :
    (set s' : EStateM ε σ PUnit) s = .ok ⟨⟩ s' := rfl

@[simp] theorem modify_ok (f : σ → σ) (s : σ) :
    (modify f : EStateM ε σ PUnit) s = .ok ⟨⟩ (f s) := rfl

/-- Run a program on a part of the state. -/
def lens (part : σ → τ) (put : σ → τ → σ) (x : EStateM ε τ α) : EStateM ε σ α :=
  fun s => match x (part s) with
    | .ok a t => .ok a (put s t)
    | .error e t => .error e (put s t)

theorem lens_ok {part : σ → τ} {put : σ → τ → σ} {x : EStateM ε τ α} {s : σ}
    {a : α} {t : τ} (h : x (part s) = .ok a t) :
    lens part put x s = .ok a (put s t) := by
  rw [lens, h]

theorem lens_error {part : σ → τ} {put : σ → τ → σ} {x : EStateM ε τ α} {s : σ}
    {e : ε} {t : τ} (h : x (part s) = .error e t) :
    lens part put x s = .error e (put s t) := by
  rw [lens, h]

end StateExcept
