import Mathlib

/-!
# Words as bit rows, and scattered matrices

`packMsb` shifts bits into a word. `scatter` writes a matrix at positions a row map computes; where
the map is an involution in every column, as `diagonal` is, `scatter_apply` reads it back.
-/

namespace MeshcoreSniffer.Lib

open List

/-! ## Packing -/

def packMsb (w : Nat) (bits : List Bool) : BitVec w :=
  bits.foldl (fun (acc : BitVec w) (b : Bool) => (acc <<< 1) ||| (BitVec.ofBool b).setWidth w) 0#w

theorem packMsb_append_singleton (w : Nat) (bits : List Bool) (b : Bool) :
    packMsb w (bits ++ [b]) = (packMsb w bits <<< 1) ||| (BitVec.ofBool b).setWidth w := by
  simp [packMsb, foldl_append]

theorem getLsbD_packMsb (w : Nat) (bits : List Bool) (k : Nat) :
    (packMsb w bits).getLsbD k = (decide (k < w) && bits.reverse.getD k false) := by
  induction bits using reverseRecOn generalizing k with
  | nil => simp [packMsb]
  | append_singleton bits b ih =>
    rw [packMsb_append_singleton, BitVec.getLsbD_or, BitVec.getLsbD_shiftLeft,
      BitVec.getLsbD_setWidth, reverse_append, reverse_singleton]
    cases k with
    | zero => simp
    | succ k =>
      rw [ih, show k + 1 - 1 = k by omega]
      by_cases hk : k + 1 < w
      · simp [hk, show k < w by omega]
      · simp [hk]

theorem getLsbD_packMsb_map_range {w n i : Nat} (f : Nat → Bool) (hn : n ≤ w) (hi : i < n) :
    (packMsb w ((range n).map f)).getLsbD (n - 1 - i) = f i := by
  rw [getLsbD_packMsb, getD_eq_getElem?_getD, getElem?_reverse (by simp; omega)]
  have hindex : n - 1 - (n - 1 - i) = i := by omega
  simp [show n - 1 - i < w by omega, hindex, hi]

theorem packMsb_lt (w : Nat) (bits : List Bool) : (packMsb w bits).toNat < 2 ^ bits.length := by
  apply Nat.lt_pow_two_of_testBit
  intro k hk
  rw [BitVec.testBit_toNat, getLsbD_packMsb, getD_eq_default _ _ (by simpa using hk),
    Bool.and_false]

/-! ## Scattering -/

section Scatter

variable {α : Type*}

def setEntry (M : Nat → Nat → α) (r c : Nat) (a : α) : Nat → Nat → α :=
  fun r' c' => if r' = r ∧ c' = c then a else M r' c'

/-- Entry `(i, j)` of `src` written to row `row i j`, column `i`. -/
def scatter (n m : Nat) (row : Nat → Nat → Nat) (zero : α) (src : Nat → Nat → α) : Nat → Nat → α :=
  (List.range m).foldl
    (fun M i => (List.range n).foldl (fun M j => setEntry M (row i j) i (src i j)) M)
    fun _ _ => zero

variable {n m : Nat} {row : Nat → Nat → Nat} {src : Nat → Nat → α} {zero : α}

theorem scatterColumn_apply {i r c k : Nat} (M : Nat → Nat → α)
    (hinv : ∀ j < n, row i (row i j) = j) (hk : k ≤ n) (hr : r < n) :
    (range k).foldl (fun M j => setEntry M (row i j) i (src i j)) M r c =
      if c = i ∧ row i r < k then src i (row i r) else M r c := by
  induction k with
  | zero => simp
  | succ k ih =>
    rw [range_succ, foldl_append, foldl_cons, foldl_nil, setEntry,
      ih (by omega)]
    by_cases hc : c = i
    · by_cases hrow : r = row i k
      · have hback : row i r = k := by rw [hrow, hinv k (by omega)]
        simp [hc, hrow ▸ hback, hrow]
      · have hne : row i r ≠ k := fun h => hrow (by rw [← h, hinv r hr])
        have hlt : row i r < k + 1 ↔ row i r < k := by omega
        simp [hc, hrow, hlt]
    · simp [hc]

theorem scatter_apply {r i : Nat} (hinv : ∀ i, ∀ j < n, row i (row i j) = j)
    (hlt : ∀ i, ∀ j < n, row i j < n) (hr : r < n) (hi : i < m) :
    scatter n m row zero src r i = src i (row i r) := by
  unfold scatter
  induction m with
  | zero => omega
  | succ m ih =>
    rw [range_succ, foldl_append, foldl_cons, foldl_nil,
      scatterColumn_apply _ (hinv m) le_rfl hr]
    by_cases him : i = m
    · rw [if_pos ⟨him, hlt m r hr⟩, him]
    · rw [if_neg (fun h => him h.1), ih (by omega)]

end Scatter

/-! ## The diagonal -/

/-- The row that bit `j` of symbol `i` belongs to, modulo `n`. -/
def diagonal (n i j : Nat) : Nat := (((i : Int) - j - 1) % n).toNat

theorem diagonal_lt {n : Nat} (i j : Nat) (hn : 0 < n) : diagonal n i j < n := by
  have hpos : (0 : Int) < n := by exact_mod_cast hn
  have h1 := Int.emod_lt_of_pos ((i : Int) - j - 1) hpos
  unfold diagonal
  omega

theorem diagonal_diagonal {n j : Nat} (i : Nat) (hj : j < n) :
    diagonal n i (diagonal n i j) = j := by
  have hpos : (0 : Int) < n := by omega
  have h0 := Int.emod_nonneg ((i : Int) - j - 1) hpos.ne'
  unfold diagonal
  rw [Int.toNat_of_nonneg h0]
  have hcancel : ((i : Int) - ((i : Int) - j - 1) % n - 1) % n = j := by
    rw [show (i : Int) - ((i : Int) - j - 1) % n - 1 = i - 1 - ((i : Int) - j - 1) % n by ring,
      Int.sub_emod, Int.emod_emod_of_dvd _ dvd_rfl, ← Int.sub_emod]
    rw [show (i : Int) - 1 - (i - j - 1) = j by ring]
    exact Int.emod_eq_of_lt (by omega) (by omega)
  rw [hcancel, Int.toNat_natCast]

end MeshcoreSniffer.Lib
