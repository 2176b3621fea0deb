import Mathlib.Data.List.Basic

/-!
# Programs that load from a memory

A program is a tree of loads; its result depends on the touched cells only (`run_congr`). `Ensures`:
every touched cell is allowed and the result has a property.
-/

namespace MeshcoreSniffer.Lib

open List

/-- A program that returns an `α` and may load cells `ι`, each holding a `β`. -/
inductive Loads (ι β α : Type) where
  | done (a : α)
  | load (i : ι) (rest : β → Loads ι β α)

namespace Loads

variable {ι β α γ : Type}

protected def bind : Loads ι β α → (α → Loads ι β γ) → Loads ι β γ
  | .done a, f => f a
  | .load i rest, f => .load i fun b => (rest b).bind f

instance : Monad (Loads ι β) where
  pure := .done
  bind := Loads.bind

def cell (i : ι) : Loads ι β β := .load i .done

def times (f : Nat → Loads ι β α) : Nat → Nat → Loads ι β (List α)
  | _, 0 => pure []
  | i, n + 1 => do
    let a ← f i
    let as ← times f (i + 1) n
    return a :: as

/-! ## Execution -/

def run (mem : ι → β) : Loads ι β α → α
  | .done a => a
  | .load i rest => (rest (mem i)).run mem

def touched (mem : ι → β) : Loads ι β α → List ι
  | .done _ => []
  | .load i rest => i :: (rest (mem i)).touched mem

variable (mem : ι → β)

@[simp] theorem run_pure (a : α) : (pure a : Loads ι β α).run mem = a := rfl

@[simp] theorem touched_pure (a : α) : (pure a : Loads ι β α).touched mem = [] := rfl

@[simp] theorem run_cell (i : ι) : (cell i).run mem = mem i := rfl

@[simp] theorem touched_cell (i : ι) : (cell i).touched mem = [i] := rfl

@[simp] theorem run_bind (x : Loads ι β α) (f : α → Loads ι β γ) :
    (x >>= f).run mem = (f (x.run mem)).run mem := by
  induction x with
  | done a => rfl
  | load i rest ih => exact ih (mem i)

@[simp] theorem touched_bind (x : Loads ι β α) (f : α → Loads ι β γ) :
    (x >>= f).touched mem = x.touched mem ++ (f (x.run mem)).touched mem := by
  induction x with
  | done a => rfl
  | load i rest ih => exact congrArg (i :: ·) (ih (mem i))

/-- **Frame.** Only the touched cells matter. -/
theorem run_congr {mem mem' : ι → β} (x : Loads ι β α)
    (hagree : ∀ i ∈ x.touched mem, mem' i = mem i) :
    x.run mem' = x.run mem ∧ x.touched mem' = x.touched mem := by
  induction x with
  | done a => exact ⟨rfl, rfl⟩
  | load i rest ih =>
    have hcell : mem' i = mem i := hagree i (mem_cons_self ..)
    have hrest := ih (mem i) fun j hj => hagree j (mem_cons_of_mem _ hj)
    unfold run touched
    rw [hcell, hrest.1, hrest.2]
    exact ⟨rfl, rfl⟩

/-! ## Triples -/

/-- Every cell that `x` loads is allowed by `ok`, and its result satisfies `post`. -/
def Ensures (ok : ι → Prop) (x : Loads ι β α) (post : α → Prop) : Prop :=
  (∀ i ∈ x.touched mem, ok i) ∧ post (x.run mem)

variable {mem} {ok : ι → Prop} {x : Loads ι β α} {post : α → Prop}

theorem Ensures.pure {a : α} (h : post a) : Ensures mem ok (pure a) post :=
  ⟨fun _ hi => absurd hi not_mem_nil, h⟩

theorem Ensures.cell {i : ι} {post : β → Prop} (hok : ok i) (h : post (mem i)) :
    Ensures mem ok (cell i) post := by
  refine ⟨fun j hj => ?_, h⟩
  rw [touched_cell, mem_singleton] at hj
  rw [hj]
  exact hok

theorem Ensures.bind {f : α → Loads ι β γ} {mid : α → Prop} {post : γ → Prop}
    (hx : Ensures mem ok x mid) (hf : ∀ a, mid a → Ensures mem ok (f a) post) :
    Ensures mem ok (x >>= f) post := by
  have hrest := hf _ hx.2
  refine ⟨fun i hi => ?_, ?_⟩
  · rw [touched_bind, mem_append] at hi
    exact hi.elim (hx.1 i) (hrest.1 i)
  · rw [run_bind]
    exact hrest.2

theorem Ensures.mono {ok' : ι → Prop} {post' : α → Prop} (hx : Ensures mem ok x post)
    (hok : ∀ i, ok i → ok' i) (hpost : ∀ a, post a → post' a) : Ensures mem ok' x post' :=
  ⟨fun i hi => hok i (hx.1 i hi), hpost _ hx.2⟩

theorem Ensures.ite {p : Prop} [Decidable p] {y : Loads ι β α}
    (hx : p → Ensures mem ok x post) (hy : ¬p → Ensures mem ok y post) :
    Ensures mem ok (if p then x else y) post := by
  split
  next h => exact hx h
  next h => exact hy h

theorem Ensures.times {f : Nat → Loads ι β α} (g : Nat → α) {i n : Nat}
    (hround : ∀ j, i ≤ j → j < i + n → Ensures mem ok (f j) (· = g j)) :
    Ensures mem ok (times f i n) (· = (range n).map fun j => g (i + j)) := by
  induction n generalizing i with
  | zero => exact .pure rfl
  | succ n ih =>
    refine .bind (hround i (by omega) (by omega)) ?_
    rintro a rfl
    refine .bind (ih fun j hj hlt => hround j (by omega) (by omega)) ?_
    rintro as rfl
    refine .pure ?_
    rw [range_succ_eq_map, map_cons, map_map]
    congr 1
    refine map_congr_left fun j _ => ?_
    show g (i + 1 + j) = g (i + (j + 1))
    rw [Nat.add_assoc, Nat.add_comm 1]

end Loads

end MeshcoreSniffer.Lib
