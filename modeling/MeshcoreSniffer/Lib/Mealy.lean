import Mathlib

/-!
# Runs of a machine with outputs

`run` feeds a list of inputs and concatenates the outputs, `visits` lists the states met with their
inputs. What one step preserves, a run preserves.
-/

namespace MeshcoreSniffer.Lib.Mealy

variable {σ ι ω : Type*} (step : σ → ι → σ × List ω)

def run (s : σ) : List ι → σ × List ω
  | [] => (s, [])
  | i :: is =>
    let next := step s i
    let rest := run next.1 is
    (rest.1, next.2 ++ rest.2)

def visits (s : σ) : List ι → List (σ × ι)
  | [] => []
  | i :: is => (s, i) :: visits (step s i).1 is

def Reachable (init : σ → Prop) (s : σ) : Prop :=
  ∃ s₀ is, init s₀ ∧ (run step s₀ is).1 = s

variable {P : σ → Prop} (s : σ)

theorem run_append (is js : List ι) : run step s (is ++ js) =
      ((run step (run step s is).1 js).1,
        (run step s is).2 ++ (run step (run step s is).1 js).2) := by
  induction is generalizing s with
  | nil => rfl
  | cons i is ih => simp only [List.cons_append, run, ih, List.append_assoc]

theorem run_flatten (chunks : List (List ι)) :
    run (fun s chunk => run step s chunk) s chunks = run step s chunks.flatten := by
  induction chunks generalizing s with
  | nil => rfl
  | cons chunk chunks ih => rw [List.flatten_cons, run_append, run, ih]

theorem run_congr {step step' : σ → ι → σ × List ω} (hsame : ∀ s i, P s → step s i = step' s i)
    (hstep : ∀ s i, P s → P (step s i).1) {s : σ} (h0 : P s) (is : List ι) :
    run step s is = run step' s is := by
  induction is generalizing s with
  | nil => rfl
  | cons i is ih => rw [run, run, ih (hstep s i h0), hsame s i h0]

theorem visits_snoc (is : List ι) (i : ι) :
    visits step s (is ++ [i]) = visits step s is ++ [((run step s is).1, i)] := by
  induction is generalizing s with
  | nil => rfl
  | cons j is ih => rw [List.cons_append, visits, visits, ih, run, List.cons_append]

theorem run_invariant (hstep : ∀ s i, P s → P (step s i).1) {s : σ} (h0 : P s) (is : List ι) :
    P (run step s is).1 := by
  induction is generalizing s with
  | nil => exact h0
  | cons i is ih => exact ih (hstep s i h0)

theorem visits_invariant (hstep : ∀ s i, P s → P (step s i).1) {s : σ} (h0 : P s) (is : List ι) :
    ∀ v ∈ visits step s is, P v.1 := by
  induction is generalizing s with
  | nil =>
    intro v hv
    cases hv
  | cons i is ih =>
    intro v hv
    rcases List.mem_cons.mp hv with rfl | hrest
    · exact h0
    · exact ih (hstep s i h0) v hrest

theorem mem_run_iff (is : List ι) (e : ω) :
    e ∈ (run step s is).2 ↔ ∃ v ∈ visits step s is, e ∈ (step v.1 v.2).2 := by
  induction is generalizing s with
  | nil => simp [run, visits]
  | cons i is ih => simp [run, visits, ih]

theorem Reachable.invariant {step : σ → ι → σ × List ω} {init : σ → Prop} {s : σ}
    (h : Reachable step init s) (hinit : ∀ s, init s → P s) (hstep : ∀ s i, P s → P (step s i).1) :
    P s := by
  obtain ⟨s₀, is, h0, rfl⟩ := h
  exact run_invariant step hstep (hinit s₀ h0) is

end MeshcoreSniffer.Lib.Mealy
