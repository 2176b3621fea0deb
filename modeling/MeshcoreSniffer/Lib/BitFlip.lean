import Mathlib

/-!
# Bit flips in byte strings

Bit `i` is bit `i % 8` of byte `i / 8`. A flip moves exactly one bit (`bitAt_flipBit`), and a string
is determined by its length and its bits (`ext_bitAt`).
-/

namespace MeshcoreSniffer.Lib

open List

abbrev Byte := BitVec 8

/-- Decided along the string, not over every value a byte can have. -/
instance (priority := high) decidableForallMem {w : Nat} (p : BitVec w → Prop) [DecidablePred p]
    (l : List (BitVec w)) : Decidable (∀ b ∈ l, p b) := List.decidableBAll p l

/-- Bit `i` of a byte string; `false` past its end. -/
def bitAt (bs : List Byte) (i : Nat) : Bool := (bs.getD (i / 8) 0#8).getLsbD (i % 8)

/-- The string with bit `i` inverted (unchanged past its end). -/
def flipBit (bs : List Byte) (i : Nat) : List Byte :=
  bs.modify (i / 8) (fun b => b ^^^ (1#8 <<< (i % 8)))

def diffBits (a b : List Byte) : Finset Nat :=
  (Finset.range (8 * a.length)).filter (fun i => bitAt a i ≠ bitAt b i)

variable {i j : Nat} (bs : List Byte)

@[simp] theorem length_flipBit (i : Nat) : (flipBit bs i).length = bs.length := by
  simp [flipBit]

theorem getD_flipBit (i k : Nat) (hi : i < 8 * bs.length) : (flipBit bs i).getD k 0#8
      = if i / 8 = k then bs.getD k 0#8 ^^^ (1#8 <<< (i % 8)) else bs.getD k 0#8 := by
  simp only [flipBit, getD_eq_getElem?_getD, getElem?_modify]
  by_cases hk : i / 8 = k
  · have hlt : k < bs.length := by omega
    simp [hk, hlt]
  · simp [hk]

theorem bitAt_flipBit (i j : Nat) (hi : i < 8 * bs.length) :
    bitAt (flipBit bs i) j = (bitAt bs j ^^ decide (i = j)) := by
  unfold bitAt
  rw [getD_flipBit bs i (j / 8) hi]
  have hmask : ∀ m < 8, ∀ r < 8, (1#8 <<< m).getLsbD r = decide (m = r) := by decide
  by_cases hbyte : i / 8 = j / 8
  · rw [if_pos hbyte, BitVec.getLsbD_xor, hmask _ (Nat.mod_lt _ (by omega)) _
      (Nat.mod_lt _ (by omega))]
    congr 2
    apply propext
    omega
  · rw [if_neg hbyte]
    have hne : i ≠ j := fun h => hbyte (by rw [h])
    simp [hne]

theorem ext_bitAt {a b : List Byte} (hlen : a.length = b.length)
    (h : ∀ i, i < 8 * a.length → bitAt a i = bitAt b i) : a = b := by
  apply ext_getElem hlen
  intro k hka hkb
  apply BitVec.eq_of_getLsbD_eq
  intro r hr
  have hbit := h (8 * k + r) (by omega)
  have hdiv : (8 * k + r) / 8 = k := by omega
  have hmod : (8 * k + r) % 8 = r := by omega
  simpa [bitAt, hdiv, hmod, hka, hkb] using hbit

@[simp] theorem flipBit_flipBit (i : Nat) : flipBit (flipBit bs i) i = bs := by
  by_cases hi : i < 8 * bs.length
  · apply ext_bitAt (by simp)
    intro j _
    rw [bitAt_flipBit _ i j (by simpa using hi), bitAt_flipBit bs i j hi]
    simp
  · have hbyte : bs.length ≤ i / 8 := by omega
    simp [flipBit, modify_eq_self hbyte]

theorem flipBit_append_left (a b : List Byte) (i : Nat) (hi : i < 8 * a.length) :
    flipBit (a ++ b) i = flipBit a i ++ b := by
  apply ext_getElem?
  intro k
  simp only [flipBit, getElem?_modify, getElem?_append, length_modify]
  by_cases hk : k < a.length
  · simp [hk]
  · have hne : i / 8 ≠ k := by omega
    simp [hk, hne]

theorem diffBits_flipBit_flipBit (hi : i < 8 * bs.length) (hj : j < 8 * bs.length) (hne : i ≠ j) :
    diffBits bs (flipBit (flipBit bs i) j) = {i, j} := by
  ext k
  simp only [diffBits, Finset.mem_filter, Finset.mem_range, Finset.mem_insert,
    Finset.mem_singleton]
  rw [bitAt_flipBit _ j k (by simpa using hj), bitAt_flipBit bs i k hi]
  constructor
  · rintro ⟨_, hk⟩
    by_contra hno
    obtain ⟨h1, h2⟩ := not_or.mp hno
    exact hk (by simp [Ne.symm h1, Ne.symm h2])
  · rintro (rfl | rfl)
    · exact ⟨hi, by simp [Ne.symm hne]⟩
    · exact ⟨hj, by simp [hne]⟩

theorem diffBits_flipBit (hi : i < 8 * bs.length) : diffBits bs (flipBit bs i) = {i} := by
  ext k
  simp only [diffBits, Finset.mem_filter, Finset.mem_range, Finset.mem_singleton]
  rw [bitAt_flipBit bs i k hi]
  constructor
  · rintro ⟨_, hk⟩
    by_contra hno
    exact hk (by simp [Ne.symm hno])
  · rintro rfl
    exact ⟨hi, by simp⟩

theorem diffBits_self : diffBits bs bs = ∅ := by
  simp [diffBits]

theorem flipBit_ne (hi : i < 8 * bs.length) : flipBit bs i ≠ bs := by
  intro h
  have hdiff := diffBits_flipBit bs hi
  rw [h, diffBits_self] at hdiff
  exact Finset.singleton_ne_empty i hdiff.symm

theorem flipBit_flipBit_ne (hi : i < 8 * bs.length) (hj : j < 8 * bs.length) (hne : i ≠ j) :
    flipBit (flipBit bs i) j ≠ bs := by
  intro h
  have hdiff := diffBits_flipBit_flipBit bs hi hj hne
  rw [h, diffBits_self] at hdiff
  exact Finset.insert_ne_empty i {j} hdiff.symm

end MeshcoreSniffer.Lib
