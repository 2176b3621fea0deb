import MeshcoreSniffer.Lib.BitMatrix
import MeshcoreSniffer.Lib.BitFlip

/-!
# Hamming codewords

The two decoders of `lora.c`, and the code of the parity equations above them. The correction table
of the hard one addresses the data bits from the other end, so a wrong data bit is never repaired
(`loraHammingDecode_wrong_bit`).
-/

namespace MeshcoreSniffer.Lora

open Lib

def crApp (cr : Nat) : Nat := min 4 (max 1 (cr - 4))

def cwLen (cr : Nat) : Nat := crApp cr + 4

structure DataBits where
  d0 : Bool
  d1 : Bool
  d2 : Bool
  d3 : Bool
  deriving DecidableEq, Repr

def DataBits.nibble (d : DataBits) : Byte := packMsb 8 [d.d3, d.d2, d.d1, d.d0]

/-- The syndrome branch of `lora_hamming_decode`, shared by rates 4/7 and 4/8. -/
def syndromeCorrect (b : Nat → Bool) (d : DataBits) : DataBits :=
  let s0 := b 0 ^^ b 1 ^^ b 2 ^^ b 4
  let s1 := b 1 ^^ b 2 ^^ b 3 ^^ b 5
  let s2 := b 0 ^^ b 1 ^^ b 3 ^^ b 6
  match s0.toNat ||| (s1.toNat <<< 1) ||| (s2.toNat <<< 2) with
  | 5 => { d with d3 := !d.d3 }
  | 7 => { d with d2 := !d.d2 }
  | 3 => { d with d1 := !d.d1 }
  | 6 => { d with d0 := !d.d0 }
  | _ => d

/-- `lora_hamming_decode`. Its error count is set to zero on every path and is
left out. -/
def loraHammingDecode (cw : Byte) (cr : Nat) : Byte :=
  let b := fun i => cw.getLsbD (cwLen cr - 1 - i)
  let d : DataBits := ⟨b 0, b 1, b 2, b 3⟩
  let corrected :=
    match crApp cr with
    | 4 =>
      -- an even weight means no error or two: leave the word alone
      let total := ((List.range 8).map fun i => (b i).toNat).sum
      if total % 2 = 0 then d else syndromeCorrect b d
    | 3 => syndromeCorrect b d
    | _ => d
  corrected.nibble

def cwLut : List Byte :=
  [0, 23, 45, 58, 78, 89, 99, 116, 139, 156, 166, 177, 197, 210, 232, 255]

def cwLutCr5 : List Byte :=
  [0, 24, 40, 48, 72, 80, 96, 120, 136, 144, 160, 184, 192, 216, 232, 240]

/-- The magnitude of every likelihood, counted positive where its sign is the bit. -/
def softScore (code : Byte) (width : Nat) (cwLlrs : List ℚ) : ℚ :=
  (List.range width).foldl
    (fun (p : ℚ) (j : Nat) =>
      let bit := code.getLsbD (width - 1 - j)
      let l := cwLlrs.getD j 0
      let a := if l < 0 then -l else l
      if (bit ∧ 0 < l) ∨ (¬ bit ∧ l < 0) then p + a else p - a)
    0

/-- `lora_hamming_decode_soft`, over exact likelihoods. -/
def loraHammingDecodeSoft (cwLlrs : List ℚ) (cr : Nat) : Byte :=
  let lut := if crApp cr = 1 then cwLutCr5 else cwLut
  let best := (List.range 16).foldl
    (fun (best : Nat × ℚ) (n : Nat) =>
      let p := softScore (lut.getD n 0 >>> (8 - cwLen cr)) (cwLen cr) cwLlrs
      if best.2 < p then (n, p) else best)
    (0, -(10 ^ 30))
  let dataMsbFirst := cwLut.getD best.1 0 >>> 4
  ((dataMsbFirst &&& 0x1) <<< 3) ||| ((dataMsbFirst &&& 0x2) <<< 1) |||
    ((dataMsbFirst &&& 0x4) >>> 1) ||| ((dataMsbFirst &&& 0x8) >>> 3)

/-! ## The code -/

/-- From the top down. Rate 4/5 has one parity bit, over the whole nibble. -/
def codewordBits (cr : Nat) (n : BitVec 4) : List Bool :=
  let d0 := n.getLsbD 0
  let d1 := n.getLsbD 1
  let d2 := n.getLsbD 2
  let d3 := n.getLsbD 3
  let p0 := d0 ^^ d1 ^^ d2
  let p1 := d1 ^^ d2 ^^ d3
  let p2 := d0 ^^ d1 ^^ d3
  let p3 := d0 ^^ d2 ^^ d3
  if crApp cr = 1 then [d0, d1, d2, d3, d0 ^^ d1 ^^ d2 ^^ d3]
  else [d0, d1, d2, d3, p0, p1, p2, p3].take (cwLen cr)

def hammingEncode (cr : Nat) (n : BitVec 4) : Byte := packMsb 8 (codewordBits cr n)

theorem loraHammingDecode_encode (n : BitVec 4) {cr : Nat} (hlo : 5 ≤ cr) (hhi : cr ≤ 8) :
    loraHammingDecode (hammingEncode cr n) cr = n.setWidth 8 := by
  have hall : ∀ cr < 9, 5 ≤ cr → ∀ n : BitVec 4,
      loraHammingDecode (hammingEncode cr n) cr = n.setWidth 8 := by decide
  exact hall cr (by omega) hlo n

theorem loraHammingDecode_wrong_bit (n : BitVec 4) {cr k : Nat} (hlo : 7 ≤ cr) (hhi : cr ≤ 8)
    (hk : k < cr) :
    loraHammingDecode (hammingEncode cr n ^^^ (1#8 <<< (cr - 1 - k))) cr = n.setWidth 8 ↔
      4 ≤ k := by
  have hall : ∀ cr < 9, 7 ≤ cr → ∀ k < cr, ∀ n : BitVec 4,
      (loraHammingDecode (hammingEncode cr n ^^^ (1#8 <<< (cr - 1 - k))) cr = n.setWidth 8 ↔
        4 ≤ k) := by decide
  exact hall cr (by omega) hlo k hk n

end MeshcoreSniffer.Lora
