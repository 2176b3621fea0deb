import MeshcoreSniffer.Lib.SoftDecision
import MeshcoreSniffer.Lora.Interleave

/-!
# Soft decoding of a block

`state_tick` deinterleaves likelihoods and scores all sixteen codewords. A bad symbol spoils one
position of each codeword, and distance three is enough for the margin of `Lib.SoftDecision`.
-/

namespace MeshcoreSniffer.Lora

open Lib Lib.SoftDecision List

def decodeBlockSoft (symLlrs : List (List ℚ)) (sfApp cr : Nat) : List Byte :=
  (loraDeinterleaveSoft symLlrs sfApp cr).map fun cwLlrs => loraHammingDecodeSoft cwLlrs cr

def bitsFromTop (width : Nat) (code : Byte) (j : Nat) : Bool := code.getLsbD (width - 1 - j)

/-! ## The score -/

theorem softScore_eq (code : Byte) (width : Nat) (cwLlrs : List ℚ) :
    softScore code width cwLlrs = correlation width (bitsFromTop width code) (cwLlrs.getD · 0) := by
  have hterm : ∀ (bit : Bool) (p l : ℚ),
      (if (bit = true ∧ 0 < l) ∨ (¬bit = true ∧ l < 0) then p + (if l < 0 then -l else l)
        else p - (if l < 0 then -l else l)) = p + agreement bit l := by
    intro bit p l
    rcases lt_trichotomy l 0 with hneg | rfl | hpos
    · cases bit <;> simp [agreement, hneg, hneg.le.not_gt]
    · cases bit <;> simp [agreement]
    · cases bit <;> simp [agreement, hpos, hpos.le.not_gt, sub_eq_add_neg]
  have hsum : ∀ n ≤ width, (range n).foldl (fun (p : ℚ) (j : Nat) =>
      p + agreement (bitsFromTop width code j) (cwLlrs.getD j 0)) 0 =
      correlation n (bitsFromTop width code) (cwLlrs.getD · 0) := by
    intro n
    induction n with
    | zero => exact fun _ => rfl
    | succ n ih =>
      intro hn
      rw [range_succ, foldl_append, ih (Nat.le_of_succ_le hn), correlation, correlation,
        Finset.sum_range_succ]
      rfl
  rw [softScore, ← hsum width (le_refl _)]
  congr 1
  funext p j
  exact hterm _ p _

/-! ## The code -/

def lutIndex (n : BitVec 4) : Nat := n.reverse.toNat

def lutNibble (k : Nat) : Byte :=
  let dataMsbFirst := cwLut.getD k 0 >>> 4
  ((dataMsbFirst &&& 0x1) <<< 3) ||| ((dataMsbFirst &&& 0x2) <<< 1) |||
    ((dataMsbFirst &&& 0x4) >>> 1) ||| ((dataMsbFirst &&& 0x8) >>> 3)

theorem cwLut_lutIndex (n : BitVec 4) {cr : Nat} (hcr : 7 ≤ cr ∧ cr ≤ 8) :
    cwLut.getD (lutIndex n) 0 >>> (8 - cr) = hammingEncode cr n ∧
      lutNibble (lutIndex n) = n.setWidth 8 ∧ lutIndex n < 16 := by
  have hall : ∀ cr < 9, 7 ≤ cr → ∀ n : BitVec 4,
      cwLut.getD (lutIndex n) 0 >>> (8 - cr) = hammingEncode cr n ∧
        lutNibble (lutIndex n) = n.setWidth 8 ∧ lutIndex n < 16 := by decide +kernel
  exact hall cr (by omega) hcr.1 n

theorem distance_cwLut {cr k k' : Nat} (hcr : 7 ≤ cr ∧ cr ≤ 8) (hk : k < 16) (hk' : k' < 16)
    (hne : k' ≠ k) :
    3 ≤ (differing cr (bitsFromTop cr (cwLut.getD k 0 >>> (8 - cr)))
      (bitsFromTop cr (cwLut.getD k' 0 >>> (8 - cr)))).card := by
  have hall : ∀ k < 16, ∀ k' < 16, k' = k ∨
      3 ≤ (differing 7 (bitsFromTop 7 (cwLut.getD k 0 >>> 1))
        (bitsFromTop 7 (cwLut.getD k' 0 >>> 1))).card ∧
      3 ≤ (differing 8 (bitsFromTop 8 (cwLut.getD k 0 >>> 0))
        (bitsFromTop 8 (cwLut.getD k' 0 >>> 0))).card := by decide +kernel
  obtain ⟨hseven, height⟩ := (hall k hk k' hk').resolve_left hne
  obtain rfl | rfl : cr = 7 ∨ cr = 8 := by omega
  · exact hseven
  · exact height

/-- **One codeword.** One bad likelihood, no larger than the others, does not change the
nibble. -/
theorem loraHammingDecodeSoft_one_bad {cr : Nat} {cwLlrs : List ℚ} {m : ℚ} (n : BitVec 4) (bad : Nat)
    (hcr : 7 ≤ cr ∧ cr ≤ 8) (hm : 0 < m)
    (hgood : ∀ j < cr, j ≠ bad → m ≤ agreement (bitsFromTop cr (hammingEncode cr n) j) (cwLlrs.getD j 0))
    (hbad : bad < cr → |cwLlrs.getD bad 0| ≤ m) :
    loraHammingDecodeSoft cwLlrs cr = n.setWidth 8 := by
  obtain ⟨hcode, hnibble, hindex⟩ := cwLut_lutIndex n hcr
  have hwidth : cwLen cr = cr := by
    rw [cwLen, crApp]
    omega
  have hrate : ¬crApp cr = 1 := by
    rw [crApp]
    omega
  have hbad' : bad < cr → -m ≤ agreement (bitsFromTop cr (hammingEncode cr n) bad) (cwLlrs.getD bad 0) := by
    intro h
    obtain ⟨hlo, hhi⟩ := abs_le.mp (hbad h)
    rw [agreement]
    split
    · exact hlo
    · exact neg_le_neg hhi
  -- against the all-wrong word the true one scores positive, far above the scan's start
  have hpos : 0 < softScore (hammingEncode cr n) cr cwLlrs := by
    have hlower : correlation cr (fun j => !bitsFromTop cr (hammingEncode cr n) j) (cwLlrs.getD · 0) <
        correlation cr (bitsFromTop cr (hammingEncode cr n)) (cwLlrs.getD · 0) := by
      refine correlation_lt hm ?_ hgood hbad'
      have hfull : differing cr (bitsFromTop cr (hammingEncode cr n))
          (fun j => !bitsFromTop cr (hammingEncode cr n) j) = Finset.range cr :=
        Finset.filter_true_of_mem fun j _ => by simp
      rw [hfull, Finset.card_range]
      omega
    have hneg : correlation cr (fun j => !bitsFromTop cr (hammingEncode cr n) j) (cwLlrs.getD · 0) =
        -correlation cr (bitsFromTop cr (hammingEncode cr n)) (cwLlrs.getD · 0) := by
      rw [correlation, correlation, ← Finset.sum_neg_distrib]
      refine Finset.sum_congr rfl fun j _ => ?_
      cases bitsFromTop cr (hammingEncode cr n) j <;> simp [agreement]
    rw [softScore_eq]
    linarith
  have hscan := foldl_best (fun k => softScore (cwLut.getD k 0 >>> (8 - cr)) cr cwLlrs) 0
    (-(10 ^ 30)) hindex
    (lt_trans (by norm_num) hpos) (by rw [hcode]) fun k hk hne => by
      rw [softScore_eq, softScore_eq]
      have hdist := distance_cwLut hcr hindex hk hne
      rw [hcode] at hdist
      exact correlation_lt hm hdist hgood hbad'
  rw [← hnibble, loraHammingDecodeSoft, if_neg hrate, hwidth]
  dsimp only
  rw [hscan]
  rfl

/-! ## Blocks -/

variable {sfApp cr : Nat}

theorem loraDeinterleaveSoft_eq (symLlrs : List (List ℚ)) (hsf : 0 < sfApp) :
    loraDeinterleaveSoft symLlrs sfApp cr = (range sfApp).map fun r =>
      (range cr).map fun i => (symLlrs.getD i []).getD (diagonal sfApp i r) 0 := by
  have hrow : deinterRow sfApp = diagonal sfApp := by
    funext i j
    exact deinterRow_eq_diagonal i j hsf
  rw [loraDeinterleaveSoft, hrow]
  refine map_congr_left fun r hr => map_congr_left fun i hi => ?_
  exact scatter_apply (fun i j hj => diagonal_diagonal i hj) (fun i j _ => diagonal_lt i j hsf)
    (mem_range.mp hr) (mem_range.mp hi)

/-- The likelihoods of a symbol have the signs of its bits and at least magnitude `m`. -/
def SureSymbol (sent : List (BitVec 16)) (sfApp i : Nat) (m : ℚ) (llrs : List ℚ) : Prop :=
  ∀ j < sfApp, if interBin sent sfApp i j then m ≤ llrs.getD j 0 else llrs.getD j 0 ≤ -m

/-- **One bad symbol.** At rates 4/7 and 4/8, if the likelihoods of every symbol but one have the
right signs and magnitude at least `m`, and those of that one magnitude at most `m`, the block
decodes to what was sent. -/
theorem decodeBlockSoft_one_bad_symbol (nibbles : List (BitVec 4)) (symLlrs : List (List ℚ))
    (bad : Nat) (m : ℚ) (hsf : 5 ≤ sfApp ∧ sfApp ≤ 12) (hcr : 7 ≤ cr ∧ cr ≤ 8)
    (hlen : nibbles.length = sfApp) (hm : 0 < m)
    (hgood : ∀ i < cr, i ≠ bad →
      SureSymbol (encodeBlock sfApp cr nibbles) sfApp i m (symLlrs.getD i []))
    (hbad : ∀ j < sfApp, |(symLlrs.getD bad []).getD j 0| ≤ m) :
    decodeBlockSoft symLlrs sfApp cr = nibbles.map fun n => n.setWidth 8 := by
  have hpos : 0 < sfApp := by omega
  rw [decodeBlockSoft, loraDeinterleaveSoft_eq symLlrs hpos, map_setWidth_eq hlen, map_map]
  refine map_congr_left fun r hr => ?_
  have hr' := mem_range.mp hr
  have hcell : ∀ i < cr, ((range cr).map fun i =>
      (symLlrs.getD i []).getD (diagonal sfApp i r) 0).getD i 0 =
        (symLlrs.getD i []).getD (diagonal sfApp i r) 0 := by
    intro i hi
    rw [getD_eq_getElem?_getD, getElem?_map, getElem?_range hi]
    rfl
  rw [Function.comp_apply]
  refine loraHammingDecodeSoft_one_bad _ bad hcr hm (fun i hi hne => ?_) fun hlt => ?_
  · have hdiag : diagonal sfApp i r < sfApp := diagonal_lt i r hpos
    have hsure := hgood i hi hne _ hdiag
    rw [interBin_encodeBlock hlen (by omega) hi hdiag, diagonal_diagonal i hr'] at hsure
    rw [hcell i hi, agreement, bitsFromTop]
    split at hsure
    next hbit => rwa [if_pos hbit]
    next hbit =>
      rw [if_neg hbit]
      linarith
  · rw [hcell bad hlt]
    exact hbad _ (diagonal_lt bad r hpos)

def clearLlrs (sent : List (BitVec 16)) (sfApp : Nat) : List (List ℚ) :=
  (List.range sent.length).map fun i =>
    (List.range sfApp).map fun j => if interBin sent sfApp i j then 1 else -1

theorem decodeBlockSoft_one_bad_symbol_first :
    decodeBlockSoft ((clearLlrs (encodeBlock 5 7 [0x1#4, 0x2#4, 0x3#4, 0x4#4, 0x5#4]) 5).set 0
        (List.replicate 5 (-1))) 5 7 =
      [0x1#4, 0x2#4, 0x3#4, 0x4#4, 0x5#4].map fun n => n.setWidth 8 := by
  refine decodeBlockSoft_one_bad_symbol [0x1#4, 0x2#4, 0x3#4, 0x4#4, 0x5#4] _ 0 1 (by decide)
    (by decide) (by decide) (by norm_num) ?_ ?_
  · unfold SureSymbol
    decide +kernel
  · decide +kernel

end MeshcoreSniffer.Lora
