import Mathlib.Data.List.Basic

/-!
# Runs of a step function

An interleaving of threads is a list of steps. `Along` states a condition on every step of a run, in
the state it is taken in; what each such step preserves, a run preserves.
-/

namespace MeshcoreSniffer.Lib.Runs

variable {σ ι : Type*} (step : σ → ι → σ)

def run (s : σ) (steps : List ι) : σ := steps.foldl step s

def Along (P : σ → ι → Prop) (s : σ) : List ι → Prop
  | [] => True
  | x :: steps => P s x ∧ Along P (step s x) steps

instance decidableAlong (P : σ → ι → Prop) [∀ s x, Decidable (P s x)] :
    (s : σ) → (steps : List ι) → Decidable (Along step P s steps)
  | _, [] => isTrue trivial
  | s, x :: steps =>
    have := decidableAlong P (step s x) steps
    inferInstanceAs (Decidable (P s x ∧ Along step P (step s x) steps))

variable {step}

theorem run_append (s : σ) (before after : List ι) :
    run step s (before ++ after) = run step (run step s before) after := List.foldl_append

variable {P : σ → ι → Prop} {s : σ} {steps : List ι} {I : σ → Prop}

theorem along_append {before after : List ι} : Along step P s (before ++ after) ↔
      Along step P s before ∧ Along step P (run step s before) after := by
  induction before generalizing s with
  | nil => simp [Along, run]
  | cons x before ih =>
    rw [List.cons_append, Along, Along, ih, and_assoc]
    rfl

theorem along_const {P : ι → Prop} : Along step (fun _ x => P x) s steps ↔ ∀ x ∈ steps, P x := by
  induction steps generalizing s with
  | nil => simp [Along]
  | cons x steps ih => simp [Along, ih]

theorem run_invariant (hstep : ∀ s x, I s → I (step s x)) (h0 : I s) (steps : List ι) :
    I (run step s steps) := by
  induction steps generalizing s with
  | nil => exact h0
  | cons x steps ih => exact ih (hstep s x h0)

theorem along_invariant (hstep : ∀ s x, P s x → I s → I (step s x)) (h0 : I s)
    (h : Along step P s steps) : I (run step s steps) := by
  induction steps generalizing s with
  | nil => exact h0
  | cons x steps ih => exact ih (hstep s x h.1 h0) h.2

/-- Where the steps that meet `P` keep `I` and any other step breaks `Q`, `Q` holds throughout a run
exactly when all its steps meet `P`. -/
theorem forall_prefix_iff_along {Q : σ → Prop} (hQ : ∀ s, I s → Q s)
    (hkeep : ∀ s x, I s → P s x → I (step s x)) (hbreak : ∀ s x, I s → ¬P s x → ¬Q (step s x))
    (h0 : I s) (steps : List ι) :
    (∀ before, before <+: steps → Q (run step s before)) ↔ Along step P s steps := by
  induction steps generalizing s with
  | nil =>
    refine ⟨fun _ => trivial, fun _ before hbefore => ?_⟩
    rw [List.prefix_nil.mp hbefore]
    exact hQ s h0
  | cons x steps ih =>
    constructor
    · intro hall
      have hx : P s x := by
        by_contra hnot
        exact hbreak s x h0 hnot (hall [x] ⟨steps, rfl⟩)
      refine ⟨hx, (ih (hkeep s x h0 hx)).mp fun before hbefore => ?_⟩
      exact hall (x :: before) (List.cons_prefix_cons.mpr ⟨rfl, hbefore⟩)
    · rintro ⟨hx, hrest⟩ before hbefore
      cases before with
      | nil => exact hQ s h0
      | cons y before =>
        obtain ⟨rfl, htail⟩ := List.cons_prefix_cons.mp hbefore
        exact (ih (hkeep s y h0 hx)).mpr hrest before htail

end MeshcoreSniffer.Lib.Runs
