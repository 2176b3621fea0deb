import MeshcoreSniffer.Dedup.Ring

/-!
# The fingerprint is linear

`dedup_payload_fingerprint` exclusive-ors the words of a payload, turning by one bit after each. So
a payload bit is a fingerprint bit (`fingerprint_flipBit`).
-/

namespace MeshcoreSniffer.Dedup

open Lib List

variable {a b : List Byte} {r i k n : Nat}

/-! ## Words -/

theorem bitAt_cons (x : Byte) (p : List Byte) :
    bitAt (x :: p) r = if r < 8 then x.getLsbD r else bitAt p (r - 8) := by
  unfold bitAt
  split
  next h => rw [Nat.div_eq_of_lt h, Nat.mod_eq_of_lt h, getD_cons_zero]
  next h =>
    obtain ⟨r, rfl⟩ := Nat.exists_eq_add_of_le' (Nat.not_lt.mp h)
    rw [Nat.add_div_right _ (by omega), getD_cons_succ, Nat.add_mod_right, Nat.add_sub_cancel]

theorem getLsbD_leWord (p : List Byte) (h : r < 64) : (leWord p).getLsbD r = bitAt p r := by
  induction p generalizing r with
  | nil => simp [leWord, bitAt]
  | cons x p ih =>
    rw [bitAt_cons, show leWord (x :: p) = (leWord p <<< 8) ||| x.setWidth 64 from rfl,
      BitVec.getLsbD_or, BitVec.getLsbD_shiftLeft, BitVec.getLsbD_setWidth]
    split
    next hlow => simp [hlow, h]
    next hhigh => simp [hhigh, h, ih (r := r - 8) (by omega), BitVec.getLsbD_of_ge x r (by omega)]

def word (p : List Byte) (k : Nat) : BitVec 64 := leWord (p.drop (8 * k))

theorem getLsbD_word (p : List Byte) (h : r < 64) :
    (word p k).getLsbD r = bitAt p (64 * k + r) := by
  rw [word, getLsbD_leWord _ h, bitAt, bitAt, getD_eq_getElem?_getD, getElem?_drop,
    getD_eq_getElem?_getD, show 8 * k + r / 8 = (64 * k + r) / 8 by omega,
    show (64 * k + r) % 8 = r % 8 by omega]

def fold (word : Nat → BitVec 64) (n : Nat) : BitVec 64 :=
  (List.range n).foldl (fun h k => (h ^^^ word k).rotateLeft 1) 0

theorem fold_succ (word : Nat → BitVec 64) (n : Nat) :
    fold word (n + 1) = (fold word n ^^^ word n).rotateLeft 1 := by
  rw [fold, range_succ, foldl_append]
  rfl

theorem fingerprint_eq (p : List Byte) :
    dedupPayloadFingerprint p = fold (word p) (p.length / 8) ^^^ word p (p.length / 8) := by
  have hfull : ∀ k, leWord ((p.drop (8 * k)).take 8) = word p k := by
    intro k
    refine BitVec.eq_of_getLsbD_eq fun r hr => ?_
    rw [word, getLsbD_leWord _ hr, getLsbD_leWord _ hr, bitAt, bitAt, getD_eq_getElem?_getD,
      getElem?_take, if_pos (by omega), getD_eq_getElem?_getD]
  rw [dedupPayloadFingerprint]
  simp only [hfull]
  rfl

theorem rotateLeft_xor (x y : BitVec 64) :
    (x ^^^ y).rotateLeft 1 = x.rotateLeft 1 ^^^ y.rotateLeft 1 := by
  refine BitVec.eq_of_getLsbD_eq fun r hr => ?_
  simp only [BitVec.getLsbD_xor, BitVec.getLsbD_rotateLeft]
  cases decide (r < 1 % 64) <;> simp [hr]

theorem fold_xor (u v : Nat → BitVec 64) (n : Nat) :
    fold (fun k => u k ^^^ v k) n = fold u n ^^^ fold v n := by
  induction n with
  | zero => simp [fold]
  | succ n ih =>
    rw [fold_succ, fold_succ, fold_succ, ih, ← rotateLeft_xor]
    congr 1
    ac_rfl

theorem fingerprint_xor {c : List Byte} (hb : b.length = a.length) (hc : c.length = a.length)
    (h : ∀ i, bitAt c i = (bitAt a i ^^ bitAt b i)) :
    dedupPayloadFingerprint c = dedupPayloadFingerprint a ^^^ dedupPayloadFingerprint b := by
  have hword : word c = fun k => word a k ^^^ word b k := by
    funext k
    refine BitVec.eq_of_getLsbD_eq fun r hr => ?_
    rw [BitVec.getLsbD_xor, getLsbD_word _ hr, getLsbD_word _ hr, getLsbD_word _ hr, h]
  rw [fingerprint_eq, fingerprint_eq, fingerprint_eq, hb, hc, hword, fold_xor]
  ac_rfl

/-! ## One bit -/

theorem rotateLeft_twoPow (h : r < 64) :
    (BitVec.twoPow 64 r).rotateLeft 1 = BitVec.twoPow 64 ((r + 1) % 64) := by
  revert r
  decide

/-- The fingerprint bit that payload bit `i` of `n` bytes becomes. -/
def place (n i : Nat) : Nat := (i + (n / 8 - i / 64)) % 64

theorem fold_eq_zero {word : Nat → BitVec 64} (h : ∀ k < n, word k = 0) : fold word n = 0 := by
  induction n with
  | zero => rfl
  | succ n ih =>
    rw [fold_succ, ih fun k hk => h k (by omega), h n (by omega)]
    rfl

theorem fold_single (h : k ≤ n) (hr : r < 64) {word : Nat → BitVec 64}
    (hword : ∀ j, word j = if j = k then BitVec.twoPow 64 r else 0#64) :
    fold word n ^^^ word n = BitVec.twoPow 64 ((r + (n - k)) % 64) := by
  induction n with
  | zero =>
    obtain rfl := Nat.le_zero.mp h
    rw [hword, if_pos rfl, Nat.sub_self, Nat.add_zero, Nat.mod_eq_of_lt hr]
    exact BitVec.zero_xor
  | succ n ih =>
    rw [hword (n + 1)]
    rcases Nat.le_or_eq_of_le_succ h with hle | rfl
    · rw [fold_succ, ih hle, if_neg (by omega), BitVec.xor_zero,
        rotateLeft_twoPow (Nat.mod_lt _ (by omega)), Nat.mod_add_mod, Nat.add_assoc,
        Nat.succ_sub hle]
    · rw [fold_eq_zero fun k hk => by rw [hword, if_neg (by omega)]; rfl, if_pos rfl, Nat.sub_self,
        Nat.add_zero, Nat.mod_eq_of_lt hr]
      exact BitVec.zero_xor

theorem fingerprint_flipBit (p : List Byte) (hi : i < 8 * p.length) :
    dedupPayloadFingerprint (flipBit p i) =
      dedupPayloadFingerprint p ^^^ BitVec.twoPow 64 (place p.length i) := by
  have hword : word (flipBit p i) =
      fun k => word p k ^^^ if k = i / 64 then BitVec.twoPow 64 (i % 64) else 0#64 := by
    funext k
    refine BitVec.eq_of_getLsbD_eq fun r hr => ?_
    rw [BitVec.getLsbD_xor, getLsbD_word _ hr, getLsbD_word _ hr, bitAt_flipBit p i _ hi]
    congr 1
    split
    next hk =>
      have hin : i % 64 < 64 := Nat.mod_lt _ (by omega)
      rw [BitVec.getLsbD_twoPow, decide_eq_true hin, Bool.true_and]
      exact decide_eq_decide.mpr (by omega)
    next hk =>
      rw [BitVec.getLsbD_zero]
      exact decide_eq_false (by omega)
  have hsingle := fold_single (show i / 64 ≤ p.length / 8 by omega) (Nat.mod_lt i (by omega))
    fun _ => rfl
  rw [Nat.mod_add_mod] at hsingle
  rw [fingerprint_eq, fingerprint_eq, length_flipBit, hword, fold_xor, place, ← hsingle]
  ac_rfl

/-! ## Distance -/

def bits (x : BitVec n) : Finset Nat := (Finset.range n).filter fun r => x.getLsbD r

theorem toNat_cpop_eq (x : BitVec n) : x.cpop.toNat = (bits x).card := by
  have hcount : ∀ m, x.cpopNatRec m 0 = ((Finset.range m).filter fun r => x.getLsbD r).card := by
    intro m
    induction m with
    | zero => rfl
    | succ m ih =>
      rw [BitVec.cpopNatRec_succ, BitVec.cpopNatRec_eq, ih, Finset.range_add_one, Finset.filter_insert]
      cases x.getLsbD m <;> simp
  rw [BitVec.toNat_cpop, hcount, bits]

theorem bits_xor (x y : BitVec n) : bits (x ^^^ y) = symmDiff (bits x) (bits y) := by
  ext r
  simp only [bits, Finset.mem_symmDiff, Finset.mem_filter, Finset.mem_range, BitVec.getLsbD_xor]
  cases x.getLsbD r <;> cases y.getLsbD r <;> simp

theorem bits_twoPow (h : r < n) : bits (BitVec.twoPow n r) = {r} := by
  ext j
  simp only [bits, Finset.mem_filter, Finset.mem_range, BitVec.getLsbD_twoPow, Finset.mem_singleton,
    Bool.and_eq_true, decide_eq_true_eq]
  omega

theorem card_symmDiff_singleton (s : Finset Nat) (r : Nat) :
    (symmDiff s {r}).card ≤ s.card + 1 ∧ (symmDiff s {r}).card % 2 = (s.card + 1) % 2 := by
  by_cases h : r ∈ s
  · have herase : symmDiff s {r} = s.erase r := by
      ext j
      by_cases hj : j = r <;> simp [Finset.mem_symmDiff, hj, h]
    have hcard := Finset.card_erase_add_one h
    rw [herase]
    omega
  · have hinsert : symmDiff s {r} = insert r s := by
      ext j
      by_cases hj : j = r <;> simp [Finset.mem_symmDiff, hj, h]
    rw [hinsert, Finset.card_insert_of_notMem h]
    omega

theorem fingerprint_distance (h : a.length = b.length) :
    (dedupPayloadFingerprint a ^^^ dedupPayloadFingerprint b).cpop.toNat ≤ (diffBits a b).card ∧
    (dedupPayloadFingerprint a ^^^ dedupPayloadFingerprint b).cpop.toNat % 2 =
      (diffBits a b).card % 2 := by
  -- by induction on the bits in which the payloads differ, flipped in `a` one by one
  induction hdiff : diffBits a b using Finset.induction_on generalizing a with
  | empty =>
    have heq : a = b := by
      refine ext_bitAt h fun i hi => ?_
      by_contra hne
      have hmem : i ∈ diffBits a b := by simp [diffBits, hi, hne]
      simp [hdiff] at hmem
    simp [heq]
  | insert i s hi ih =>
    have hmem : i ∈ diffBits a b := by simp [hdiff]
    have hin : i < 8 * a.length := by simpa [diffBits] using (Finset.mem_filter.mp hmem).1
    have hrest : diffBits (flipBit a i) b = s := by
      ext j
      have hj : j ∈ diffBits a b ↔ j = i ∨ j ∈ s := by simp [hdiff]
      simp only [diffBits, Finset.mem_filter, length_flipBit, bitAt_flipBit a i j hin] at hj hmem ⊢
      by_cases hji : i = j
      · subst hji
        simp only [hi, iff_false, not_and]
        intro _
        revert hmem
        cases bitAt a i <;> cases bitAt b i <;> simp
      · simp only [hji, decide_false, Bool.xor_false, hj, Ne.symm hji, false_or]
    obtain ⟨hle, hparity⟩ := ih ((length_flipBit a i).trans h) hrest
    have hplace : place a.length i < 64 := Nat.mod_lt _ (by omega)
    have hstep : dedupPayloadFingerprint a ^^^ dedupPayloadFingerprint b =
        (dedupPayloadFingerprint (flipBit a i) ^^^ dedupPayloadFingerprint b) ^^^
          BitVec.twoPow 64 (place a.length i) := by
      rw [fingerprint_flipBit a hin, BitVec.xor_assoc _ _ (dedupPayloadFingerprint b),
        BitVec.xor_comm (BitVec.twoPow _ _), ← BitVec.xor_assoc, BitVec.xor_assoc _ (BitVec.twoPow _ _),
        BitVec.xor_self, BitVec.xor_zero]
    rw [hstep, toNat_cpop_eq, bits_xor, bits_twoPow hplace, Finset.card_insert_of_notMem hi]
    rw [toNat_cpop_eq] at hle hparity
    have hone := card_symmDiff_singleton
      (bits (dedupPayloadFingerprint (flipBit a i) ^^^ dedupPayloadFingerprint b)) (place a.length i)
    omega

/-- **Linearity.** The fingerprint of an exclusive or, the distance of two fingerprints and its
parity, and a single bit error. -/
theorem fingerprint_linear (a b : List Byte) (h : a.length = b.length) :
    dedupPayloadFingerprint (List.zipWith (· ^^^ ·) a b) =
      dedupPayloadFingerprint a ^^^ dedupPayloadFingerprint b ∧
    (dedupPayloadFingerprint a ^^^ dedupPayloadFingerprint b).cpop.toNat ≤ (diffBits a b).card ∧
    (dedupPayloadFingerprint a ^^^ dedupPayloadFingerprint b).cpop.toNat % 2 =
      (diffBits a b).card % 2 ∧
    ∀ i < 8 * a.length, ∃ r < 64, dedupPayloadFingerprint (flipBit a i) =
      dedupPayloadFingerprint a ^^^ BitVec.twoPow 64 r := by
  refine ⟨?_, (fingerprint_distance h).1, (fingerprint_distance h).2, fun i hi =>
    ⟨place a.length i, Nat.mod_lt _ (by omega), fingerprint_flipBit a hi⟩⟩
  refine fingerprint_xor h.symm (by simp [h]) fun i => ?_
  unfold bitAt
  rw [← BitVec.getLsbD_xor]
  congr 1
  rcases Nat.lt_or_ge (i / 8) a.length with hin | hout
  · simp [getD_eq_getElem?_getD, hin, h ▸ hin]
  · simp [getD_eq_getElem?_getD, hout, h ▸ hout]

/-- Nine bytes: a word and a rest. -/
def nineBytes (last : Byte) : List Byte := [0x0F, 0, 1, 2, 3, 4, 5, 6, last]

theorem fingerprint_linear_nine :
    dedupPayloadFingerprint (List.zipWith (· ^^^ ·) (nineBytes 0x80) (nineBytes 0x81)) =
      dedupPayloadFingerprint (nineBytes 0x80) ^^^ dedupPayloadFingerprint (nineBytes 0x81) ∧
    (dedupPayloadFingerprint (nineBytes 0x80) ^^^ dedupPayloadFingerprint (nineBytes 0x81)).cpop.toNat ≤
      (diffBits (nineBytes 0x80) (nineBytes 0x81)).card ∧
    ∃ r < 64, dedupPayloadFingerprint (flipBit (nineBytes 0x80) 70) =
      dedupPayloadFingerprint (nineBytes 0x80) ^^^ BitVec.twoPow 64 r := by
  obtain ⟨hxor, hdistance, -, hflip⟩ := fingerprint_linear (nineBytes 0x80) (nineBytes 0x81) rfl
  exact ⟨hxor, hdistance, hflip 70 (by decide)⟩

end MeshcoreSniffer.Dedup
