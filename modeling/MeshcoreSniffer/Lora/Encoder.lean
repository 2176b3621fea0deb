import MeshcoreSniffer.Lib.Blocks
import MeshcoreSniffer.Lora.Decoder

/-!
# The LoRa transmitter

The encoder a receiver has to undo: whiten, append the checksum, split into nibbles, put the first
beside the header nibbles, cut the rest into blocks, encode, interleave and map to bins.
-/

namespace MeshcoreSniffer.Lora

open Lib List

/-- A payload that the one-byte length field can describe. -/
structure TxFrame where
  sf : Nat
  cr : Nat
  ldro : Bool
  hasCrc : Bool
  payload : List Byte
  sf_lo : 7 ≤ sf
  sf_hi : sf ≤ 12
  cr_lo : 5 ≤ cr
  cr_hi : cr ≤ 8
  len_lo : 1 ≤ payload.length
  len_hi : payload.length ≤ 255

namespace TxFrame

variable (tx : TxFrame)

def trailer : List Byte := if tx.hasCrc then trailerBytes (payloadCrc tx.payload) else []

def wire : List Byte := loraDewhiten tx.payload tx.payload.length ++ tx.trailer

def nibbles : List Nibble := tx.wire.flatMap nibblesOf

def headerNibbles : List Nibble :=
  let n0 := BitVec.ofNat 4 (tx.payload.length / 16)
  let n1 := BitVec.ofNat 4 tx.payload.length
  let n2 := BitVec.ofNat 4 (2 * (tx.cr - 4) + tx.hasCrc.toNat)
  let c := headerChecksum (n0.setWidth 8) (n1.setWidth 8) (n2.setWidth 8)
  [n0, n1, n2, (c >>> 4).setWidth 4, c.setWidth 4]

def headerBlock : List Nibble :=
  padTo (tx.sf - 2) 0#4 (tx.headerNibbles ++ tx.nibbles.take (tx.sf - 7))

def sfApp : Nat := if tx.ldro then tx.sf - 2 else tx.sf

def payloadBlocks : List (List Nibble) := blocks tx.sfApp 0#4 (tx.nibbles.drop (tx.sf - 7))

def payloadSymbols : List (BitVec 16) := tx.payloadBlocks.flatMap (encodeBlock tx.sfApp tx.cr)

def headerBins : List Nat := (encodeBlock (tx.sf - 2) 8 tx.headerBlock).map (txBinReduced tx.sf)

def payloadBins : List Nat :=
  tx.payloadSymbols.map (if tx.ldro then txBinReduced tx.sf else txBin tx.sf)

-- the reference transmitter's frame `ABC` at SF 11, rate 4/5, with checksum
example :
    let tx : TxFrame :=
      { sf := 11, cr := 5, ldro := false, hasCrc := true, payload := [0x41#8, 0x42#8, 0x43#8]
        sf_lo := by decide, sf_hi := by decide, cr_lo := by decide, cr_hi := by decide
        len_lo := by decide, len_hi := by decide }
    tx.headerBins = [1645, 841, 193, 161, 61, 1785, 21, 445] ∧
      tx.payloadBins = [62, 2038, 1023, 515, 509] := by
  decide +kernel

end TxFrame

/-! ## Lengths and ranges -/

theorem length_encodeBlock (sfApp cr : Nat) (nibbles : List (BitVec 4)) :
    (encodeBlock sfApp cr nibbles).length = cr := by
  simp [encodeBlock, interleave]

theorem encodeBlock_lt {sfApp cr : Nat} {nibbles : List (BitVec 4)} {v : BitVec 16}
    (hv : v ∈ encodeBlock sfApp cr nibbles) : v.toNat < 2 ^ sfApp := by
  obtain ⟨i, -, rfl⟩ := List.mem_map.mp hv
  simpa using packMsb_lt 16 ((List.range sfApp).map fun j =>
    ((nibbles.map (hammingEncode cr)).getD (diagonal sfApp i j) 0#8).getLsbD (cr - 1 - i))

namespace TxFrame

variable (tx : TxFrame)

theorem length_trailer : tx.trailer.length = if tx.hasCrc then 2 else 0 := by
  unfold trailer
  split <;> rfl

theorem length_wire :
    tx.wire.length = tx.payload.length + if tx.hasCrc then 2 else 0 := by
  rw [wire, length_append, length_loraDewhiten, length_trailer]

theorem length_nibbles : tx.nibbles.length = 2 * tx.wire.length :=
  length_flatMap_nibblesOf tx.wire

theorem length_headerBlock : tx.headerBlock.length = tx.sf - 2 := by
  have := tx.sf_lo
  apply length_padTo
  simp only [headerNibbles, length_append, length_cons, length_nil,
    length_take]
  omega

theorem length_headerBins : tx.headerBins.length = 8 := by
  simp [headerBins, length_encodeBlock]

theorem sfApp_pos : 0 < tx.sfApp := by
  have := tx.sf_lo
  unfold sfApp
  split <;> omega

theorem sfApp_le : tx.sfApp ≤ 12 := by
  have := tx.sf_hi
  unfold sfApp
  split <;> omega

theorem length_payloadSymbols :
    tx.payloadSymbols.length = blockCount tx.sfApp (tx.nibbles.length - (tx.sf - 7)) * tx.cr := by
  rw [payloadSymbols, length_flatMap_of_length (fun b _ => length_encodeBlock tx.sfApp tx.cr b),
    payloadBlocks, length_blocks, length_drop]

theorem payloadSymbols_eq_nil_iff : tx.payloadSymbols = [] ↔ tx.nibbles.length ≤ tx.sf - 7 := by
  have hcr := tx.cr_lo
  rw [← length_eq_zero_iff, length_payloadSymbols, Nat.mul_eq_zero,
    blockCount_eq_zero_iff tx.sfApp_pos]
  omega

theorem payloadSymbols_ne_nil_of_crc (hcrc : tx.hasCrc = true) : tx.payloadSymbols ≠ [] := by
  have hsf := tx.sf_hi
  have hlen := tx.len_lo
  rw [Ne, payloadSymbols_eq_nil_iff, length_nibbles, length_wire, if_pos hcrc]
  omega

theorem payloadSymbolCount_eq :
    payloadSymbolCount tx.sf tx.ldro tx.hasCrc tx.payload.length tx.cr =
      tx.payloadSymbols.length := by
  have hsf := tx.sf_lo
  have hsf' : tx.sf - (if tx.ldro then 2 else 0) = tx.sfApp := by
    unfold sfApp
    split <;> simp_all
  have hnumer : ((2 * tx.payload.length - tx.sf + 2 + 5 + (if tx.hasCrc then 4 else 0) : Int)).toNat
      = tx.nibbles.length - (tx.sf - 7) := by
    rw [length_nibbles, length_wire]
    split <;> omega
  rw [length_payloadSymbols, payloadSymbolCount, hsf', hnumer, blockCount]

theorem length_payloadSymbols_le : tx.payloadSymbols.length ≤ maxPayloadSymbols := by
  have hsf := tx.sf_lo
  have hlen := tx.len_hi
  have hnib : tx.nibbles.length - (tx.sf - 7) ≤ 514 := by
    rw [length_nibbles, length_wire]
    split <;> omega
  have happ : 5 ≤ tx.sfApp := by
    unfold sfApp
    split <;> omega
  have hcount : blockCount tx.sfApp (tx.nibbles.length - (tx.sf - 7)) ≤ 103 := by
    have hmono : blockCount tx.sfApp (tx.nibbles.length - (tx.sf - 7)) * tx.sfApp ≤
        tx.nibbles.length - (tx.sf - 7) + tx.sfApp - 1 := Nat.div_mul_le_self _ _
    by_contra hbig
    have hmul : 104 * tx.sfApp ≤
        blockCount tx.sfApp (tx.nibbles.length - (tx.sf - 7)) * tx.sfApp :=
      Nat.mul_le_mul_right _ (by omega)
    omega
  calc tx.payloadSymbols.length
      = blockCount tx.sfApp (tx.nibbles.length - (tx.sf - 7)) * tx.cr := tx.length_payloadSymbols
    _ ≤ 103 * 8 := Nat.mul_le_mul hcount tx.cr_hi
    _ ≤ maxPayloadSymbols := by decide

/-! ## Undoing the stages -/

def widen (n : Nibble) : Byte := n.setWidth 8

theorem demod_headerBins :
    tx.headerBins.map (demodValue tx.sf 0 true) = encodeBlock (tx.sf - 2) 8 tx.headerBlock := by
  have hlo := tx.sf_lo
  have hhi := tx.sf_hi
  rw [headerBins, map_map]
  conv_rhs => rw [← map_id (encodeBlock (tx.sf - 2) 8 tx.headerBlock)]
  apply map_congr_left
  intro v hv
  exact demodValue_txBinReduced (encodeBlock_lt hv) (by omega) (by omega)

theorem payloadSymbols_lt {v : BitVec 16} (hv : v ∈ tx.payloadSymbols) :
    v.toNat < 2 ^ tx.sfApp := by
  obtain ⟨b, -, hvb⟩ := List.mem_flatMap.mp hv
  exact encodeBlock_lt hvb

theorem demod_payloadBins :
    tx.payloadBins.map (demodValue tx.sf 0 tx.ldro) = tx.payloadSymbols := by
  have hlo := tx.sf_lo
  have hhi := tx.sf_hi
  rw [payloadBins, map_map]
  conv_rhs => rw [← map_id tx.payloadSymbols]
  apply map_congr_left
  intro v hv
  have hlt := tx.payloadSymbols_lt hv
  unfold sfApp at hlt
  cases hldro : tx.ldro with
  | true =>
    rw [hldro, if_pos rfl] at hlt
    exact demodValue_txBinReduced hlt (by omega) (by omega)
  | false =>
    rw [hldro, if_neg (by decide)] at hlt
    exact demodValue_txBin hlt

theorem decode_headerBlock :
    decodeBlock (encodeBlock (tx.sf - 2) 8 tx.headerBlock) (tx.sf - 2) 8 =
      tx.headerBlock.map widen := by
  have hlo := tx.sf_lo
  have hhi := tx.sf_hi
  exact decodeBlock_encodeBlock tx.length_headerBlock (by omega) (by omega) (by omega) (by omega)

theorem parseHeader_headerBlock :
    parseHeader (tx.headerBlock.map widen) =
      { payloadLen := tx.payload.length, hasCrc := tx.hasCrc, payloadCr := tx.cr
        checksumOk := true } := by
  have hlen := tx.len_hi
  have hcrlo := tx.cr_lo
  have hcrhi := tx.cr_hi
  have hn2 : ∀ cr < 9, 5 ≤ cr → ∀ crc : Bool,
      (widen (BitVec.ofNat 4 (2 * (cr - 4) + crc.toNat))).getLsbD 0 = crc ∧
      ((widen (BitVec.ofNat 4 (2 * (cr - 4) + crc.toNat)) >>> 1) &&& 0x07#8).toNat = cr - 4 := by
    decide
  have hchk : ∀ c : BitVec 5,
      ((widen ((c >>> 4).setWidth 4) &&& 1#8).setWidth 5 <<< 4) |||
        (widen (c.setWidth 4) &&& 0x0f#8).setWidth 5 = c := by decide
  obtain ⟨hcrc, hcr⟩ := hn2 tx.cr (by omega) hcrlo tx.hasCrc
  have hlenField : (widen (BitVec.ofNat 4 (tx.payload.length / 16))).toNat <<< 4 |||
      (widen (BitVec.ofNat 4 tx.payload.length)).toNat = tx.payload.length := by
    simp only [widen, BitVec.toNat_setWidth, BitVec.toNat_ofNat]
    rw [Nat.mod_eq_of_lt (show tx.payload.length / 16 < 2 ^ 4 by omega),
      Nat.mod_eq_of_lt (show tx.payload.length / 16 < 2 ^ 8 by omega),
      Nat.mod_eq_of_lt (show tx.payload.length % 2 ^ 4 < 2 ^ 8 by omega),
      ← Nat.shiftLeft_add_eq_or_of_lt (by omega), Nat.shiftLeft_eq]
    omega
  have hrate : (if 1 ≤ tx.cr - 4 ∧ tx.cr - 4 ≤ 4 then tx.cr - 4 + 4 else 5) = tx.cr := by
    rw [if_pos ⟨by omega, by omega⟩]
    omega
  simp only [parseHeader, headerBlock, padTo, headerNibbles, map_append, map_cons,
    cons_append, getD_cons_zero, getD_cons_succ, hcrc, hcr, hrate, hlenField, hchk]
  simp [widen]

theorem leftover_headerBlock (h : tx.sf - 7 ≤ tx.nibbles.length) :
    ((tx.headerBlock.map widen).take (tx.sf - 2)).drop 5 =
      (tx.nibbles.take (tx.sf - 7)).map widen := by
  have htake : (tx.nibbles.take (tx.sf - 7)).length = tx.sf - 7 := by
    rw [length_take]
    omega
  have hfull : tx.headerBlock = tx.headerNibbles ++ tx.nibbles.take (tx.sf - 7) := by
    have hpad : tx.sf - 2 - (tx.headerNibbles ++ tx.nibbles.take (tx.sf - 7)).length = 0 := by
      rw [length_append, htake]
      simp only [headerNibbles, length_cons, length_nil]
      omega
    rw [headerBlock, padTo, hpad, replicate_zero, append_nil]
  rw [take_of_length_le (by rw [length_map, length_headerBlock]), hfull, map_append,
    drop_left' (by simp [headerNibbles])]

theorem decode_payloadBlock {b : Nat} (hb : b < tx.payloadBlocks.length) :
    decodeBlock (tx.payloadSymbols.drop (b * tx.cr)) tx.sfApp tx.cr =
      (tx.payloadBlocks[b]).map widen := by
  have hlo := tx.cr_lo
  have hle := tx.sfApp_le
  have hblock : (tx.payloadBlocks[b]).length = tx.sfApp :=
    length_of_mem_blocks tx.sfApp_pos (getElem_mem hb)
  rw [payloadSymbols, drop_flatMap (fun a _ => length_encodeBlock tx.sfApp tx.cr a),
    drop_eq_getElem_cons hb, flatMap_cons,
    decodeBlock_append _ _ tx.sfApp_pos (by omega) (length_encodeBlock _ _ _),
    decodeBlock_encodeBlock hblock tx.sfApp_pos (by omega) hlo tx.cr_hi]
  rfl

end TxFrame

end MeshcoreSniffer.Lora
