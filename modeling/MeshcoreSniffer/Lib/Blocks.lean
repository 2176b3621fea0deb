import Mathlib

/-!
# Cutting a list into equal blocks

`blocks n z l` pads `l` with `z` to whole blocks of length `n`; `flatten_blocks` puts it together
again.
-/

namespace MeshcoreSniffer.Lib

open List

variable {α β : Type*}

def padTo (n : Nat) (z : α) (l : List α) : List α := l ++ List.replicate (n - l.length) z

def blockCount (n k : Nat) : Nat := (k + n - 1) / n

/-- Cut a list into blocks of length `n`, the last one padded. -/
def blocks (n : Nat) (z : α) (l : List α) : List (List α) :=
  let count := blockCount n l.length
  (List.range count).map fun b => ((padTo (count * n) z l).drop (b * n)).take n

variable {n c : Nat} {z : α} {l : List α} {f : α → List β}

theorem length_padTo (h : l.length ≤ n) : (padTo n z l).length = n := by
  simp only [padTo, length_append, length_replicate]
  omega

theorem le_blockCount_mul (k : Nat) (hn : 0 < n) : k ≤ blockCount n k * n := by
  have hdiv := Nat.div_add_mod (k + n - 1) n
  have hmod := Nat.mod_lt (k + n - 1) hn
  rw [blockCount, Nat.mul_comm]
  omega

theorem blockCount_eq_zero_iff {k : Nat} (hn : 0 < n) : blockCount n k = 0 ↔ k = 0 := by
  rw [blockCount, Nat.div_eq_zero_iff]
  omega

theorem flatten_cut (n count : Nat) (l : List α) :
    ((range count).map fun b => (l.drop (b * n)).take n).flatten = l.take (count * n) := by
  induction count with
  | zero => simp
  | succ count ih =>
    rw [range_succ, map_append, flatten_append, ih, Nat.succ_mul, take_add]
    simp

theorem flatten_blocks (z : α) (l : List α) (hn : 0 < n) :
    (blocks n z l).flatten = padTo (blockCount n l.length * n) z l := by
  rw [blocks, flatten_cut, take_of_length_le]
  rw [length_padTo (le_blockCount_mul _ hn)]

theorem length_of_mem_blocks {b : List α} (hn : 0 < n) (hb : b ∈ blocks n z l) : b.length = n := by
  obtain ⟨i, hi, rfl⟩ := mem_map.mp hb
  have hlt := mem_range.mp hi
  have hroom : (i + 1) * n ≤ blockCount n l.length * n := Nat.mul_le_mul_right n hlt
  rw [Nat.succ_mul] at hroom
  rw [length_take, length_drop, length_padTo (le_blockCount_mul _ hn)]
  omega

@[simp] theorem length_blocks (n : Nat) (z : α) (l : List α) :
    (blocks n z l).length = blockCount n l.length := by
  simp [blocks]

theorem length_flatMap_of_length (hf : ∀ a ∈ l, (f a).length = c) :
    (l.flatMap f).length = l.length * c := by
  induction l with
  | nil => simp
  | cons a l ih =>
    rw [flatMap_cons, length_append, hf a mem_cons_self,
      ih fun b hb => hf b (mem_cons_of_mem a hb), length_cons, Nat.succ_mul, Nat.add_comm]

theorem drop_flatMap (hf : ∀ a ∈ l, (f a).length = c) (k : Nat) :
    (l.flatMap f).drop (k * c) = (l.drop k).flatMap f := by
  induction k generalizing l with
  | zero => simp
  | succ k ih =>
    cases l with
    | nil => simp
    | cons a l =>
      have hhead : (f a).length = c := hf a mem_cons_self
      rw [flatMap_cons, Nat.succ_mul, Nat.add_comm, ← drop_drop, ← hhead,
        drop_left, hhead, ih fun b hb => hf b (mem_cons_of_mem a hb)]
      rfl

theorem range_flatMap_getD (f : α → List β) (z : α) (l : List α) :
    ((range l.length).flatMap fun b => f (l.getD b z)) = l.flatMap f := by
  have hindex : (range l.length).map (fun b => l.getD b z) = l := by
    apply ext_getElem (by simp)
    intro k _ hk
    simp [hk]
  conv_rhs => rw [← hindex, flatMap_map]

end MeshcoreSniffer.Lib
