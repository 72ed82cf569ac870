/-
  Runs of a system that takes one step after another.

  `Reach init step ok s` says that `s` is reached from an initial state by
  steps that are each allowed by `ok` in the state they are taken in.  What
  holds initially and is kept by every allowed step holds of every state
  reached (`Reach.invariant`).  A run can keep a record of its steps beside the
  state (`Recorded`): every run has one, and it does not change the run.
-/
import Mathlib.Tactic.Common

namespace Runs

variable {σ ε : Type}

/-- The states reached by allowed steps. -/
inductive Reach (init : σ → Prop) (step : σ → ε → σ) (ok : σ → ε → Prop) : σ → Prop
  | init {s : σ} (h : init s) : Reach init step ok s
  | step {s : σ} {e : ε} (h : Reach init step ok s) (he : ok s e) : Reach init step ok (step s e)

variable {init : σ → Prop} {step : σ → ε → σ} {ok : σ → ε → Prop} {s : σ}

theorem Reach.invariant {P : σ → Prop} (h₀ : ∀ s, init s → P s)
    (hstep : ∀ s e, Reach init step ok s → ok s e → P s → P (step s e))
    (h : Reach init step ok s) : P s := by
  induction h with
  | init h => exact h₀ _ h
  | step h he ih => exact hstep _ _ h he ih

theorem Reach.imp {ok' : σ → ε → Prop}
    (hok : ∀ s e, Reach init step ok s → ok s e → ok' s e) (h : Reach init step ok s) :
    Reach init step ok' s := by
  induction h with
  | init h => exact .init h
  | step h he ih => exact .step ih (hok _ _ h he)

/-- A list of steps that are allowed in any state reaches its end. -/
theorem Reach.foldl {es : List ε} (h : Reach init step ok s) (hok : ∀ e ∈ es, ∀ s, ok s e) :
    Reach init step ok (es.foldl step s) := by
  induction es generalizing s with
  | nil => exact h
  | cons e es ih =>
    exact ih (.step h (hok e List.mem_cons_self s)) fun e he => hok e (List.mem_cons_of_mem _ he)

/-! ## Runs with a record -/

variable {γ : Type} {note : γ → σ → ε → γ} {g₀ : γ} {allowed : σ × γ → ε → Prop} {x : σ × γ}

/-- The states reached, each with what `note` made of the steps that led to it. -/
abbrev Recorded (init : σ → Prop) (step : σ → ε → σ) (note : γ → σ → ε → γ) (g₀ : γ)
    (allowed : σ × γ → ε → Prop) : σ × γ → Prop :=
  Reach (fun x => init x.1 ∧ x.2 = g₀) (fun x e => (step x.1 e, note x.2 x.1 e)) allowed

/-- The record does not change the run, nor what its steps are allowed by. -/
theorem Reach.forget (hok : ∀ x e, allowed x e → ok x.1 e)
    (h : Recorded init step note g₀ allowed x) : Reach init step ok x.1 := by
  induction h with
  | init h => exact .init h.1
  | step h he ih => exact .step ih (hok _ _ he)

theorem Reach.unrecorded (h : Recorded init step note g₀ allowed x) :
    Reach init step (fun _ _ => True) x.1 :=
  h.forget fun _ _ _ => trivial

end Runs
