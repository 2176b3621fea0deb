import Mathlib

/-!
# Soft decisions

A soft decoder correlates the likelihoods with every codeword and takes the best; `correlation_lt`
turns distance into a margin.
-/

namespace MeshcoreSniffer.Lib.SoftDecision

open List

variable {K : Type*} [Field K] [LinearOrder K] [IsStrictOrderedRing K]

def agreement (bit : Bool) (l : K) : K := if bit then l else -l

def correlation (n : Nat) (word : Nat → Bool) (llr : Nat → K) : K :=
  ∑ j ∈ Finset.range n, agreement (word j) (llr j)

def differing (n : Nat) (word word' : Nat → Bool) : Finset Nat :=
  (Finset.range n).filter fun j => word j ≠ word' j

omit [IsStrictOrderedRing K] [LinearOrder K] in
theorem agreement_sub (b b' : Bool) (l : K) :
    agreement b l - agreement b' l = if b ≠ b' then 2 * agreement b l else 0 := by
  cases b <;> cases b' <;> simp [agreement] <;> ring

omit [IsStrictOrderedRing K] [LinearOrder K] in
theorem correlation_sub (n : Nat) (word word' : Nat → Bool) (llr : Nat → K) :
    correlation n word llr - correlation n word' llr =
      ∑ j ∈ differing n word word', 2 * agreement (word j) (llr j) := by
  rw [correlation, correlation, ← Finset.sum_sub_distrib, differing, Finset.sum_filter]
  exact Finset.sum_congr rfl fun j _ => agreement_sub _ _ _

/-- **Margin.** With agreement at least `m` everywhere but at one position, and there at least `-m`,
a word at distance three or more scores lower. -/
theorem correlation_lt {n bad : Nat} {word word' : Nat → Bool} {llr : Nat → K} {m : K} (hm : 0 < m)
    (hdist : 3 ≤ (differing n word word').card)
    (hgood : ∀ j < n, j ≠ bad → m ≤ agreement (word j) (llr j))
    (hbad : bad < n → -m ≤ agreement (word bad) (llr bad)) :
    correlation n word' llr < correlation n word llr := by
  rw [← sub_pos, correlation_sub]
  -- each disagreement gains `2 * m`, the bad one may lose as much
  have hterm : ∀ j ∈ differing n word word',
      (2 * m - if j = bad then 4 * m else 0) ≤ 2 * agreement (word j) (llr j) := by
    intro j hj
    have hlt := Finset.mem_range.mp (Finset.mem_filter.mp hj).1
    split
    next h =>
      subst h
      have := hbad hlt
      linarith
    next h =>
      have := hgood j hlt h
      linarith
  have hlost : (∑ j ∈ differing n word word', if j = bad then 4 * m else 0) ≤ 4 * m := by
    rw [Finset.sum_ite_eq']
    split
    · exact le_refl _
    · linarith
  have hcard : (3 : K) ≤ (differing n word word').card := by exact_mod_cast hdist
  calc 0 < 2 * m := by linarith
    _ ≤ (differing n word word').card * (2 * m) - 4 * m := by nlinarith
    _ ≤ ∑ j ∈ differing n word word', (2 * m - if j = bad then 4 * m else 0) := by
      rw [Finset.sum_sub_distrib, Finset.sum_const, nsmul_eq_mul]
      linarith
    _ ≤ ∑ j ∈ differing n word word', 2 * agreement (word j) (llr j) := Finset.sum_le_sum hterm

omit [Field K] [IsStrictOrderedRing K] in
theorem foldl_best (score : Nat → K) (first : Nat) (start : K) {best : K} {n k : Nat} (hk : k < n)
    (hstart : start < best) (hbest : score k = best) (hrest : ∀ j < n, j ≠ k → score j < best) :
    (range n).foldl (fun (b : Nat × K) i => if b.2 < score i then (i, score i) else b)
      (first, start) = (k, best) := by
  -- before `k` the held score is below the best, from `k` on it is the best
  have hscan : ∀ t ≤ n, ∃ held, (range t).foldl
      (fun (b : Nat × K) i => if b.2 < score i then (i, score i) else b) (first, start) = held ∧
      (t ≤ k → held.2 < best) ∧ (k < t → held = (k, best)) := by
    intro t
    induction t with
    | zero => exact fun _ => ⟨_, rfl, fun _ => hstart, fun h => absurd h (Nat.not_lt_zero k)⟩
    | succ t ih =>
      intro ht
      obtain ⟨held, hfold, hbefore, hafter⟩ := ih (Nat.le_of_succ_le ht)
      rw [range_succ, foldl_append, hfold]
      refine ⟨_, rfl, fun hle => ?_, fun hlt => ?_⟩
      · rw [foldl_cons, foldl_nil]
        split
        · exact hrest t ht (by omega)
        · exact hbefore (by omega)
      · rw [foldl_cons, foldl_nil]
        rcases Nat.lt_or_eq_of_le (Nat.le_of_lt_succ hlt) with hkt | rfl
        · rw [hafter hkt, if_neg (not_lt.mpr (hrest t ht (by omega)).le)]
        · rw [if_pos (hbest ▸ hbefore (le_refl _)), hbest]
  obtain ⟨held, hfold, -, hheld⟩ := hscan n (le_refl n)
  rw [hfold, hheld hk]

end MeshcoreSniffer.Lib.SoftDecision
