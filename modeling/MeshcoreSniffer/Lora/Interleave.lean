import MeshcoreSniffer.Lora.Hamming

/-!
# The diagonal interleaver

A block is `cr` symbols of `sfApp` bits that carry `sfApp` codewords of `cr` bits. Every symbol
holds one bit of every codeword, so a block survives what its codewords survive.
-/

namespace MeshcoreSniffer.Lora

open Lib List

def modPos (x m : Int) : Int :=
  let r := Int.tmod x m
  if r < 0 then r + m else r

def deinterRow (sfApp i j : Nat) : Nat := (modPos ((i : Int) - j - 1) sfApp).toNat

/-- Bit `j` of symbol `i`, counted from the top of its `sfApp` bits. -/
def interBin (symbols : List (BitVec 16)) (sfApp i j : Nat) : Bool :=
  (symbols.getD i 0#16).getLsbD (sfApp - 1 - j)

def loraDeinterleave (symbols : List (BitVec 16)) (sfApp crUse : Nat) : List Byte :=
  if crUse = 0 ∨ sfApp = 0 then []
  else
    let deinterBin := scatter sfApp crUse (deinterRow sfApp) false (interBin symbols sfApp)
    (List.range sfApp).map fun i => packMsb 8 ((List.range crUse).map (deinterBin i))

def loraDeinterleaveSoft (symLlrs : List (List ℚ)) (sfApp crUse : Nat) : List (List ℚ) :=
  let cwLlrs := scatter sfApp crUse (deinterRow sfApp) 0 (fun i j => (symLlrs.getD i []).getD j 0)
  (List.range sfApp).map fun i => (List.range crUse).map (cwLlrs i)

def decodeBlock (symbols : List (BitVec 16)) (sfApp cr : Nat) : List Byte :=
  (loraDeinterleave symbols sfApp cr).map fun cw => loraHammingDecode cw cr

/-- Symbol `i` collects bit `i` of every codeword, one diagonal further down for each bit. -/
def interleave (sfApp cr : Nat) (codewords : List Byte) : List (BitVec 16) :=
  (List.range cr).map fun i => packMsb 16 ((List.range sfApp).map fun j =>
    (codewords.getD (diagonal sfApp i j) 0#8).getLsbD (cr - 1 - i))

def encodeBlock (sfApp cr : Nat) (nibbles : List (BitVec 4)) : List (BitVec 16) :=
  interleave sfApp cr (nibbles.map (hammingEncode cr))

/-! ## Reading the diagonals -/

theorem modPos_eq_emod (x : Int) {m : Int} (hm : 0 < m) : modPos x m = x % m := by
  unfold modPos
  have htmod := Int.tmod_eq_emod (a := x) (b := m)
  have h0 := Int.emod_nonneg x hm.ne'
  have h1 := Int.emod_lt_of_pos x hm
  split at htmod <;> simp only <;> split <;> omega

theorem deinterRow_eq_diagonal {sfApp : Nat} (i j : Nat) (h : 0 < sfApp) :
    deinterRow sfApp i j = diagonal sfApp i j := by
  rw [deinterRow, diagonal, modPos_eq_emod _ (by omega)]

variable {sfApp cr : Nat}

/-- The codeword that `lora_deinterleave` writes to row `r`, bit by bit. -/
def rowWord (symbols : List (BitVec 16)) (sfApp cr r : Nat) : Byte :=
  packMsb 8 ((List.range cr).map fun i => interBin symbols sfApp i (diagonal sfApp i r))

variable (symbols : List (BitVec 16))

theorem loraDeinterleave_eq (hsf : 0 < sfApp) (hcr : 0 < cr) :
    loraDeinterleave symbols sfApp cr = (range sfApp).map (rowWord symbols sfApp cr) := by
  unfold loraDeinterleave rowWord
  rw [if_neg (by omega)]
  apply map_congr_left
  intro r hr
  congr 1
  apply map_congr_left
  intro i hi
  have hrow : deinterRow sfApp = diagonal sfApp := by
    funext i j
    exact deinterRow_eq_diagonal i j hsf
  rw [hrow]
  exact scatter_apply (fun i j hj => diagonal_diagonal i hj) (fun i j _ => diagonal_lt i j hsf)
    (mem_range.mp hr) (mem_range.mp hi)

theorem decodeBlock_eq (hsf : 0 < sfApp) (hcr : 0 < cr) : decodeBlock symbols sfApp cr =
      (range sfApp).map fun r => loraHammingDecode (rowWord symbols sfApp cr r) cr := by
  rw [decodeBlock, loraDeinterleave_eq symbols hsf hcr, map_map]
  rfl

theorem decodeBlock_append (symbols rest : List (BitVec 16)) (hsf : 0 < sfApp) (hcr : 0 < cr)
    (hlen : symbols.length = cr) :
    decodeBlock (symbols ++ rest) sfApp cr = decodeBlock symbols sfApp cr := by
  have hrow : ∀ r, rowWord (symbols ++ rest) sfApp cr r = rowWord symbols sfApp cr r := by
    intro r
    unfold rowWord
    congr 1
    apply map_congr_left
    intro i hi
    have hi' : i < symbols.length := hlen ▸ mem_range.mp hi
    simp [interBin, getD_eq_getElem?_getD, getElem?_append_left hi']
  rw [decodeBlock_eq _ hsf hcr, decodeBlock_eq _ hsf hcr]
  simp only [hrow]

variable {r i k : Nat} {nibbles : List (BitVec 4)}

theorem getLsbD_rowWord (hcr : cr ≤ 8) (hi : i < cr) :
    (rowWord symbols sfApp cr r).getLsbD (cr - 1 - i) =
      interBin symbols sfApp i (diagonal sfApp i r) :=
  getLsbD_packMsb_map_range _ hcr hi

theorem getLsbD_rowWord_high (hk : cr ≤ k) : (rowWord symbols sfApp cr r).getLsbD k = false := by
  rw [rowWord, getLsbD_packMsb, getD_eq_default _ _ (by simpa using hk), Bool.and_false]

theorem getLsbD_hammingEncode_high (n : BitVec 4) (hlo : 5 ≤ cr) (hhi : cr ≤ 8) (hk : cr ≤ k) :
    (hammingEncode cr n).getLsbD k = false := by
  have hlen : (codewordBits cr n).length = cr := by
    have hwidth : cwLen cr = cr := by
      unfold cwLen crApp
      omega
    unfold codewordBits
    simp only [hwidth]
    split
    next h =>
      unfold crApp at h
      simp only [length_cons, length_nil]
      omega
    next => simp [hhi]
  rw [hammingEncode, getLsbD_packMsb, getD_eq_default _ _ (by simpa [hlen] using hk),
    Bool.and_false]

theorem codeword_ext {a b : Byte} (ha : ∀ k, cr ≤ k → a.getLsbD k = false)
    (hb : ∀ k, cr ≤ k → b.getLsbD k = false)
    (h : ∀ i < cr, a.getLsbD (cr - 1 - i) = b.getLsbD (cr - 1 - i)) : a = b := by
  apply BitVec.eq_of_getLsbD_eq
  intro k _
  by_cases hk : k < cr
  · have hbit := h (cr - 1 - k) (by omega)
    rwa [show cr - 1 - (cr - 1 - k) = k by omega] at hbit
  · rw [ha k (by omega), hb k (by omega)]

theorem interBin_encodeBlock {j : Nat} (hlen : nibbles.length = sfApp) (hsf : sfApp ≤ 16)
    (hi : i < cr) (hj : j < sfApp) : interBin (encodeBlock sfApp cr nibbles) sfApp i j =
      (hammingEncode cr (nibbles.getD (diagonal sfApp i j) 0#4)).getLsbD (cr - 1 - i) := by
  have hdiag : diagonal sfApp i j < nibbles.length := by
    rw [hlen]
    exact diagonal_lt i j (by omega)
  simp only [interBin, encodeBlock, interleave, getD_eq_getElem?_getD, getElem?_map,
    getElem?_range hi, Option.map_some, Option.getD_some]
  rw [getLsbD_packMsb_map_range _ hsf hj]
  simp [getElem?_eq_getElem hdiag]

theorem rowWord_encodeBlock (hlen : nibbles.length = sfApp) (hsf : sfApp ≤ 16) (hlo : 5 ≤ cr)
    (hhi : cr ≤ 8) (hr : r < sfApp) :
    rowWord (encodeBlock sfApp cr nibbles) sfApp cr r = hammingEncode cr (nibbles.getD r 0#4) := by
  apply codeword_ext (fun k hk => getLsbD_rowWord_high _ hk)
    (fun k hk => getLsbD_hammingEncode_high _ hlo hhi hk)
  intro i hi
  rw [getLsbD_rowWord _ hhi hi, interBin_encodeBlock hlen hsf hi (diagonal_lt _ _ (by omega)),
    diagonal_diagonal _ hr]

theorem rowWord_set_encodeBlock (v : BitVec 16) (hlen : nibbles.length = sfApp) (hsf : sfApp ≤ 16)
    (hlo : 5 ≤ cr) (hhi : cr ≤ 8) (hi : i < cr) (hr : r < sfApp) :
    rowWord ((encodeBlock sfApp cr nibbles).set i v) sfApp cr r =
      if v.getLsbD (sfApp - 1 - diagonal sfApp i r) =
          (hammingEncode cr (nibbles.getD r 0#4)).getLsbD (cr - 1 - i)
      then hammingEncode cr (nibbles.getD r 0#4)
      else hammingEncode cr (nibbles.getD r 0#4) ^^^ (1#8 <<< (cr - 1 - i)) := by
  set cw := hammingEncode cr (nibbles.getD r 0#4) with hcw
  have hmask : ∀ k, (1#8 <<< (cr - 1 - i)).getLsbD k = decide (k = cr - 1 - i) := by
    intro k
    have hall : ∀ m < 8, ∀ k < 8, (1#8 <<< m).getLsbD k = decide (k = m) := by decide
    by_cases hk : k < 8
    · exact hall _ (by omega) k hk
    · rw [BitVec.getLsbD_of_ge _ _ (by omega), eq_comm, decide_eq_false_iff_not]
      omega
  have hhigh : ∀ k, cr ≤ k → cw.getLsbD k = false := fun k hk =>
    getLsbD_hammingEncode_high _ hlo hhi hk
  have hbits : ∀ i' < cr, i' ≠ i →
      (rowWord ((encodeBlock sfApp cr nibbles).set i v) sfApp cr r).getLsbD (cr - 1 - i') =
        cw.getLsbD (cr - 1 - i') := by
    intro i' hi' hne
    rw [getLsbD_rowWord _ hhi hi']
    have hother : interBin ((encodeBlock sfApp cr nibbles).set i v) sfApp i' =
        interBin (encodeBlock sfApp cr nibbles) sfApp i' := by
      funext j
      simp [interBin, getD_eq_getElem?_getD, getElem?_set_ne (Ne.symm hne)]
    rw [hother, interBin_encodeBlock hlen hsf hi' (diagonal_lt _ _ (by omega)),
      diagonal_diagonal _ hr]
  have hbit : (rowWord ((encodeBlock sfApp cr nibbles).set i v) sfApp cr r).getLsbD (cr - 1 - i) =
      v.getLsbD (sfApp - 1 - diagonal sfApp i r) := by
    rw [getLsbD_rowWord _ hhi hi]
    have hblock : i < (encodeBlock sfApp cr nibbles).length := by simpa [encodeBlock, interleave]
    simp [interBin, getD_eq_getElem?_getD, hblock]
  split
  next hsame =>
    apply codeword_ext (fun k hk => getLsbD_rowWord_high _ hk) hhigh
    intro i' hi'
    by_cases hii : i' = i
    · rw [hii, hbit, hsame]
    · exact hbits i' hi' hii
  next hdiff =>
    apply codeword_ext (fun k hk => getLsbD_rowWord_high _ hk)
    · intro k hk
      rw [BitVec.getLsbD_xor, hhigh k hk, hmask]
      simp only [Bool.false_xor, decide_eq_false_iff_not]
      omega
    · intro i' hi'
      rw [BitVec.getLsbD_xor, hmask]
      by_cases hii : i' = i
      · rw [hii, hbit]
        revert hdiff
        cases v.getLsbD (sfApp - 1 - diagonal sfApp i r) <;> cases cw.getLsbD (cr - 1 - i) <;> simp
      · rw [hbits i' hi' hii, decide_eq_false (by omega), Bool.xor_false]

/-! ## Blocks -/

theorem map_setWidth_eq (hlen : nibbles.length = sfApp) : nibbles.map (fun n => n.setWidth 8) =
      (range sfApp).map fun r => (nibbles.getD r 0#4).setWidth 8 := by
  apply ext_getElem
  · simp [hlen]
  · intro k hk _
    have hk' : k < nibbles.length := by simpa using hk
    simp [hk']

theorem decodeBlock_encodeBlock (hlen : nibbles.length = sfApp) (hpos : 0 < sfApp)
    (hsf : sfApp ≤ 16) (hlo : 5 ≤ cr) (hhi : cr ≤ 8) :
    decodeBlock (encodeBlock sfApp cr nibbles) sfApp cr = nibbles.map (fun n => n.setWidth 8) := by
  rw [decodeBlock_eq _ hpos (by omega), map_setWidth_eq hlen]
  apply map_congr_left
  intro r hr
  rw [rowWord_encodeBlock hlen hsf hlo hhi (mem_range.mp hr),
    loraHammingDecode_encode _ hlo hhi]

/-- **One wrong symbol.** At rates 4/7 and 4/8, with symbol `i` replaced by any `v`, the nibbles
come back exactly when it is one of the parity symbols, or `v` carries the code bits that were sent.
-/
theorem decodeBlock_one_wrong_symbol (nibbles : List (BitVec 4)) (i : Nat) (v : BitVec 16)
    (hsf : 5 ≤ sfApp ∧ sfApp ≤ 12) (hcr : 7 ≤ cr ∧ cr ≤ 8) (hlen : nibbles.length = sfApp)
    (hi : i < cr) :
    decodeBlock ((encodeBlock sfApp cr nibbles).set i v) sfApp cr =
        nibbles.map (fun n => n.setWidth 8) ↔
      4 ≤ i ∨ v.setWidth sfApp = ((encodeBlock sfApp cr nibbles).getD i 0#16).setWidth sfApp := by
  have hwrong : ∀ r < sfApp,
      (loraHammingDecode (rowWord ((encodeBlock sfApp cr nibbles).set i v) sfApp cr r) cr =
          (nibbles.getD r 0#4).setWidth 8 ↔
        4 ≤ i ∨ v.getLsbD (sfApp - 1 - diagonal sfApp i r) =
          (hammingEncode cr (nibbles.getD r 0#4)).getLsbD (cr - 1 - i)) := by
    intro r hr
    rw [rowWord_set_encodeBlock v hlen (by omega) (by omega) hcr.2 hi hr]
    split
    next hsame => simp [hsame, loraHammingDecode_encode _ (by omega : 5 ≤ cr) hcr.2]
    next hdiff => rw [loraHammingDecode_wrong_bit _ hcr.1 hcr.2 hi, or_iff_left hdiff]
  have hsent : ∀ r < sfApp, (hammingEncode cr (nibbles.getD r 0#4)).getLsbD (cr - 1 - i) =
      ((encodeBlock sfApp cr nibbles).getD i 0#16).getLsbD (sfApp - 1 - diagonal sfApp i r) := by
    intro r hr
    have hdiag : diagonal sfApp i r < sfApp := diagonal_lt _ _ (by omega)
    have hbit := interBin_encodeBlock hlen (by omega) hi hdiag
    rw [diagonal_diagonal _ hr] at hbit
    exact hbit.symm
  rw [decodeBlock_eq _ (by omega) (by omega), map_setWidth_eq hlen, map_inj_left]
  by_cases hparity : 4 ≤ i
  · refine iff_of_true ?_ (Or.inl hparity)
    intro r hr
    exact (hwrong r (mem_range.mp hr)).mpr (Or.inl hparity)
  · rw [or_iff_right hparity]
    constructor
    · -- every bit of `v` lies on the diagonal of some codeword
      intro hall
      apply BitVec.eq_of_getLsbD_eq
      intro k hk
      have hr := diagonal_lt i (sfApp - 1 - k) (show 0 < sfApp by omega)
      have hcol := diagonal_diagonal i (show sfApp - 1 - k < sfApp by omega)
      have hbit := ((hwrong _ hr).mp (hall _ (mem_range.mpr hr))).resolve_left hparity
      rw [hsent _ hr, hcol, show sfApp - 1 - (sfApp - 1 - k) = k by omega] at hbit
      simp [hk, hbit]
    · intro heq r hr
      have hr' := mem_range.mp hr
      refine (hwrong r hr').mpr (Or.inr ?_)
      rw [hsent r hr']
      have hbit := congrArg (fun x : BitVec sfApp => x.getLsbD (sfApp - 1 - diagonal sfApp i r)) heq
      simpa [show sfApp - 1 - diagonal sfApp i r < sfApp by omega] using hbit

theorem decodeBlock_one_wrong_symbol_parity :
    decodeBlock ((encodeBlock 5 7 [0x1#4, 0x2#4, 0x3#4, 0x4#4, 0x5#4]).set 6 0xffff#16) 5 7 =
      [0x1#4, 0x2#4, 0x3#4, 0x4#4, 0x5#4].map (fun n => n.setWidth 8) :=
  (decodeBlock_one_wrong_symbol [0x1#4, 0x2#4, 0x3#4, 0x4#4, 0x5#4] 6 0xffff#16 (by decide)
    (by decide) (by decide) (by decide)).mpr (Or.inl (by decide))

/-- One inverted bit in the first symbol of an all-zero rate 4/8 block decodes to `9`: `d0` is wrong
as received and `d3` inverted by the correction. -/
theorem decodeBlock_wrong_data_symbol :
    decodeBlock ((encodeBlock 5 8 (List.replicate 5 0x0#4)).set 0 0x0001#16) 5 8 =
        [0x09#8, 0x00#8, 0x00#8, 0x00#8, 0x00#8] ∧
      decodeBlock ((encodeBlock 5 8 (List.replicate 5 0x0#4)).set 0 0x0001#16) 5 8 ≠
        (List.replicate 5 0x0#4).map (fun n => n.setWidth 8) := by
  decide +kernel

end MeshcoreSniffer.Lora
