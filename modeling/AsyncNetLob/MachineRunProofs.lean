import Mathlib.Data.List.Basic
import Mathlib.Data.List.Forall2

/-! # Runs of deterministic machines

    A machine answers each input of a list with an output and moves to its
    next state.  The rules every development over such a machine uses:

    * `run_invariant`: what every step preserves holds after every run;
    * `run_invariant_along`: the same for runs whose steps all meet a condition on
      the input and the state before it (`Along`);
    * `run_simulation`: two machines that answer related inputs with related
      outputs, and stay related, do so over whole runs.  The guard `G` is for
      relations that only the steps of some runs keep. -/

namespace MachineRun

variable {α β σ τ ρ ω : Type}

/-- Feed the inputs one by one; return the outputs and the last state. -/
def run (step : α → σ → ρ × σ) : List α → σ → List ρ × σ
  | [], s => ([], s)
  | a :: as, s =>
      ((step a s).1 :: (run step as (step a s).2).1, (run step as (step a s).2).2)

variable {step : α → σ → ρ × σ} {step' : β → τ → ω × τ}

@[simp] theorem run_nil (s : σ) : run step [] s = ([], s) := rfl

@[simp] theorem run_cons_fst (a : α) (as : List α) (s : σ) :
    (run step (a :: as) s).1 = (step a s).1 :: (run step as (step a s).2).1 := rfl

@[simp] theorem run_cons_snd (a : α) (as : List α) (s : σ) :
    (run step (a :: as) s).2 = (run step as (step a s).2).2 := rfl

/-- A run of a concatenation is a run of the second part from where the first
    one ends. -/
theorem run_append_snd (as bs : List α) (s : σ) :
    (run step (as ++ bs) s).2 = (run step bs (run step as s).2).2 := by
  induction as generalizing s with
  | nil => rfl
  | cons a as ih => exact ih _

/-- **INVARIANTS**: what every step preserves holds after every run. -/
theorem run_invariant {I : σ → Prop} (hstep : ∀ a s, I s → I (step a s).2)
    (as : List α) {s : σ} (h : I s) : I (run step as s).2 := by
  induction as generalizing s with
  | nil => exact h
  | cons a as ih => exact ih (hstep a s h)

/-- Every step of the run meets a condition on its input and the state before
    it. -/
def Along (step : α → σ → ρ × σ) (P : α → σ → Prop) : List α → σ → Prop
  | [], _ => True
  | a :: as, s => P a s ∧ Along step P as (step a s).2

instance decidableAlong (P : α → σ → Prop) [∀ a s, Decidable (P a s)] :
    ∀ (as : List α) (s : σ), Decidable (Along step P as s)
  | [], _ => inferInstanceAs (Decidable True)
  | a :: as, s =>
      have := decidableAlong P as (step a s).2
      inferInstanceAs (Decidable (P a s ∧ Along step P as (step a s).2))

/-- The condition holds along the first part of a run. -/
theorem Along.of_append {P : α → σ → Prop} {as bs : List α} {s : σ}
    (h : Along step P (as ++ bs) s) : Along step P as s := by
  induction as generalizing s with
  | nil => trivial
  | cons a as ih => exact ⟨h.1, ih h.2⟩

/-- **GUARDED INVARIANTS**: what the steps that meet the condition preserve
    holds after every run of such steps. -/
theorem run_invariant_along {I : σ → Prop} {P : α → σ → Prop}
    (hstep : ∀ a s, P a s → I s → I (step a s).2) {as : List α} {s : σ}
    (hP : Along step P as s) (h : I s) : I (run step as s).2 := by
  induction as generalizing s with
  | nil => exact h
  | cons a as ih => exact ih hP.2 (hstep a s hP.1 h)

/-- What holds of all outputs of a run holds along it. -/
theorem Along.of_outputs {P : ρ → Prop} {as : List α} {s : σ}
    (h : ∀ o ∈ (run step as s).1, P o) : Along step (fun a s => P (step a s).1) as s := by
  induction as generalizing s with
  | nil => trivial
  | cons a as ih =>
      exact ⟨h _ List.mem_cons_self, ih fun o ho => h o (List.mem_cons_of_mem _ ho)⟩

/-- **SIMULATION**: related machines give related outputs over related input
    lists and end in related states, as long as the first one meets a
    condition. -/
theorem run_simulation {Q : α → β → Prop} {R : σ → τ → Prop} {O : ρ → ω → Prop}
    {G : α → σ → Prop}
    (hstep : ∀ a b s t, Q a b → G a s → R s t →
      O (step a s).1 (step' b t).1 ∧ R (step a s).2 (step' b t).2)
    {as : List α} {bs : List β} (hin : List.Forall₂ Q as bs) {s : σ} {t : τ}
    (hg : Along step G as s) (h : R s t) :
    List.Forall₂ O (run step as s).1 (run step' bs t).1
      ∧ R (run step as s).2 (run step' bs t).2 := by
  induction hin generalizing s t with
  | nil => exact ⟨List.Forall₂.nil, h⟩
  | cons hq _ ih =>
      obtain ⟨ho, hr⟩ := hstep _ _ s t hq hg.1 h
      obtain ⟨hos, hrs⟩ := ih hg.2 hr
      exact ⟨List.Forall₂.cons ho hos, hrs⟩

end MachineRun
