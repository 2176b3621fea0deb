import MeshcoreSniffer.Lora.Interleave

/-!
# Whitening and symbol values

`demodValue` is the step from an FFT bin to a symbol value, `txBin` the transmitter's inverse. A
reduced-rate symbol loses its two low bits on the way (`demodValue_txBinReduced`).
-/

namespace MeshcoreSniffer.Lora

open Lib List

/-! ## Whitening -/

def loraWhitenTable : List Byte :=
  [0xff, 0xfe, 0xfc, 0xf8, 0xf0, 0xe1, 0xc2, 0x85, 0x0b, 0x17, 0x2f, 0x5e, 0xbc, 0x78, 0xf1, 0xe3,
   0xc6, 0x8d, 0x1a, 0x34, 0x68, 0xd0, 0xa0, 0x40, 0x80, 0x01, 0x02, 0x04, 0x08, 0x11, 0x23, 0x47,
   0x8e, 0x1c, 0x38, 0x71, 0xe2, 0xc4, 0x89, 0x12, 0x25, 0x4b, 0x97, 0x2e, 0x5c, 0xb8, 0x70, 0xe0,
   0xc0, 0x81, 0x03, 0x06, 0x0c, 0x19, 0x32, 0x64, 0xc9, 0x92, 0x24, 0x49, 0x93, 0x26, 0x4d, 0x9b,
   0x37, 0x6e, 0xdc, 0xb9, 0x72, 0xe4, 0xc8, 0x90, 0x20, 0x41, 0x82, 0x05, 0x0a, 0x15, 0x2b, 0x56,
   0xad, 0x5b, 0xb6, 0x6d, 0xda, 0xb5, 0x6b, 0xd6, 0xac, 0x59, 0xb2, 0x65, 0xcb, 0x96, 0x2c, 0x58,
   0xb0, 0x61, 0xc3, 0x87, 0x0f, 0x1f, 0x3e, 0x7d, 0xfb, 0xf6, 0xed, 0xdb, 0xb7, 0x6f, 0xde, 0xbd,
   0x7a, 0xf5, 0xeb, 0xd7, 0xae, 0x5d, 0xba, 0x74, 0xe8, 0xd1, 0xa2, 0x44, 0x88, 0x10, 0x21, 0x43,
   0x86, 0x0d, 0x1b, 0x36, 0x6c, 0xd8, 0xb1, 0x63, 0xc7, 0x8f, 0x1e, 0x3c, 0x79, 0xf3, 0xe7, 0xce,
   0x9c, 0x39, 0x73, 0xe6, 0xcc, 0x98, 0x31, 0x62, 0xc5, 0x8b, 0x16, 0x2d, 0x5a, 0xb4, 0x69, 0xd2,
   0xa4, 0x48, 0x91, 0x22, 0x45, 0x8a, 0x14, 0x29, 0x52, 0xa5, 0x4a, 0x95, 0x2a, 0x54, 0xa9, 0x53,
   0xa7, 0x4e, 0x9d, 0x3b, 0x77, 0xee, 0xdd, 0xbb, 0x76, 0xec, 0xd9, 0xb3, 0x67, 0xcf, 0x9e, 0x3d,
   0x7b, 0xf7, 0xef, 0xdf, 0xbf, 0x7e, 0xfd, 0xfa, 0xf4, 0xe9, 0xd3, 0xa6, 0x4c, 0x99, 0x33, 0x66,
   0xcd, 0x9a, 0x35, 0x6a, 0xd4, 0xa8, 0x51, 0xa3, 0x46, 0x8c, 0x18, 0x30, 0x60, 0xc1, 0x83, 0x07,
   0x0e, 0x1d, 0x3a, 0x75, 0xea, 0xd5, 0xaa, 0x55, 0xab, 0x57, 0xaf, 0x5f, 0xbe, 0x7c, 0xf9, 0xf2,
   0xe5, 0xca, 0x94, 0x28, 0x50, 0xa1, 0x42, 0x84, 0x09, 0x13, 0x27, 0x4f, 0x9f, 0x3f, 0x7f, 0x00]

def whitenCount (len : Nat) : Nat :=
  if len > loraWhitenTable.length then loraWhitenTable.length else len

def loraDewhiten (data : List Byte) (len : Nat) : List Byte :=
  data.mapIdx fun i b => if i < whitenCount len then b ^^^ loraWhitenTable.getD i 0#8 else b

theorem whitenCount_le (len : Nat) : whitenCount len ≤ len := by
  unfold whitenCount
  split <;> omega

@[simp] theorem length_loraDewhiten (data : List Byte) (len : Nat) :
    (loraDewhiten data len).length = data.length := by
  simp [loraDewhiten]

theorem loraDewhiten_loraDewhiten (data : List Byte) (len : Nat) :
    loraDewhiten (loraDewhiten data len) len = data := by
  apply ext_getElem (by simp)
  intro i _ _
  simp only [loraDewhiten, getElem_mapIdx]
  by_cases hi : i < whitenCount len
  · rw [if_pos hi, if_pos hi, BitVec.xor_assoc, BitVec.xor_self, BitVec.xor_zero]
  · rw [if_neg hi, if_neg hi]

theorem loraDewhiten_append (data tail : List Byte) {len : Nat} (hlen : len ≤ data.length) :
    loraDewhiten (data ++ tail) len = loraDewhiten data len ++ tail := by
  apply ext_getElem?
  intro i
  simp only [loraDewhiten, getElem?_mapIdx, getElem?_append, length_mapIdx]
  by_cases hi : i < data.length
  · simp [hi]
  · have hn : ¬ i < whitenCount len := by
      have := whitenCount_le len
      omega
    simp [hi, hn]

/-! ## Gray maps -/

def loraGrayDecode (s : BitVec 16) : BitVec 16 := s ^^^ (s >>> 1)

def grayLoop : Nat → BitVec 16 → BitVec 16 → BitVec 16
  | 0, b, _ => b
  | turns + 1, b, s => if s = 0#16 then b else grayLoop turns (b ^^^ s) (s >>> 1)

def loraGrayEncode (s : BitVec 16) : BitVec 16 := grayLoop 16 s (s >>> 1)

theorem loraGrayDecode_xor (a b : BitVec 16) :
    loraGrayDecode (a ^^^ b) = loraGrayDecode a ^^^ loraGrayDecode b := by
  unfold loraGrayDecode
  rw [BitVec.ushiftRight_xor_distrib]
  ac_rfl

theorem loraGrayDecode_grayLoop (turns : Nat) (b s : BitVec 16) (hs : s >>> turns = 0#16) :
    loraGrayDecode (grayLoop turns b s) = loraGrayDecode b ^^^ s := by
  induction turns generalizing b s with
  | zero =>
    rw [BitVec.ushiftRight_zero] at hs
    rw [grayLoop, hs, BitVec.xor_zero]
  | succ turns ih =>
    rw [grayLoop]
    split
    next h0 => rw [h0, BitVec.xor_zero]
    next =>
      rw [ih _ _ (by rw [← BitVec.shiftRight_add, Nat.add_comm, hs]), loraGrayDecode_xor]
      have hcancel : loraGrayDecode s ^^^ s >>> 1 = s := by
        rw [loraGrayDecode, BitVec.xor_assoc, BitVec.xor_self, BitVec.xor_zero]
      rw [BitVec.xor_assoc, hcancel]

theorem loraGrayDecode_encode (s : BitVec 16) : loraGrayDecode (loraGrayEncode s) = s := by
  have hlast : s >>> 1 >>> 16 = 0#16 := by
    rw [← BitVec.shiftRight_add]
    exact BitVec.ushiftRight_eq_zero (by omega)
  rw [loraGrayEncode, loraGrayDecode_grayLoop 16 _ _ hlast, loraGrayDecode, BitVec.xor_assoc,
    BitVec.xor_self, BitVec.xor_zero]

theorem grayLoop_lt {k : Nat} (turns : Nat) {b s : BitVec 16} (hb : b.toNat < 2 ^ k)
    (hs : s.toNat < 2 ^ k) : (grayLoop turns b s).toNat < 2 ^ k := by
  induction turns generalizing b s with
  | zero => exact hb
  | succ turns ih =>
    rw [grayLoop]
    split
    next => exact hb
    next =>
      apply ih
      · rw [BitVec.toNat_xor]
        exact Nat.xor_lt_two_pow hb hs
      · rw [BitVec.toNat_ushiftRight]
        exact lt_of_le_of_lt (Nat.shiftRight_le _ _) hs

theorem loraGrayEncode_lt {k : Nat} {s : BitVec 16} (hs : s.toNat < 2 ^ k) :
    (loraGrayEncode s).toNat < 2 ^ k := by
  apply grayLoop_lt _ hs
  rw [BitVec.toNat_ushiftRight]
  exact lt_of_le_of_lt (Nat.shiftRight_le _ _) hs

/-! ## Bins -/

/-- Take back the offset of the lock and of the transmitter's one bin, drop two bits in reduced-rate
mode, undo the Gray map. -/
def demodValue (sf : Nat) (preambleBin : Int) (reduced : Bool) (sym : Nat) : BitVec 16 :=
  let corr := (modPos ((sym : Int) - preambleBin - 1) (2 ^ sf : Nat)).toNat
  loraGrayDecode (BitVec.ofNat 16 (if reduced then corr / 4 else corr))

def txBin (sf : Nat) (v : BitVec 16) : Nat := ((loraGrayEncode v).toNat + 1) % 2 ^ sf

/-- Two bits are appended below the value, the upper one its parity. -/
def txBinReduced (sf : Nat) (v : BitVec 16) : Nat :=
  let parity := ((List.range 16).map fun i => (v.getLsbD i).toNat).sum % 2
  txBin sf ((v <<< 2) ||| BitVec.ofNat 16 (2 * parity))

variable {sf : Nat} {v : BitVec 16}

theorem modPos_txBin (hv : v.toNat < 2 ^ sf) :
    modPos ((txBin sf v : Int) - 0 - 1) (2 ^ sf : Nat) = (loraGrayEncode v).toNat := by
  have hpos : (0 : Int) < (2 ^ sf : Nat) := by exact_mod_cast Nat.two_pow_pos sf
  have hlt := loraGrayEncode_lt hv
  rw [modPos_eq_emod _ hpos, sub_zero, txBin, Int.natCast_mod, Int.emod_sub_emod]
  push_cast
  rw [add_sub_cancel_right]
  exact Int.emod_eq_of_lt (by omega) (by exact_mod_cast hlt)

theorem demodValue_txBin (hv : v.toNat < 2 ^ sf) : demodValue sf 0 false (txBin sf v) = v := by
  unfold demodValue
  rw [modPos_txBin hv]
  simp only [Int.toNat_natCast, Bool.false_eq_true, if_false, BitVec.ofNat_toNat,
    BitVec.setWidth_eq]
  exact loraGrayDecode_encode v

theorem demodValue_txBinReduced (hv : v.toNat < 2 ^ (sf - 2)) (hsf : 2 ≤ sf) (hmax : sf ≤ 16) :
    demodValue sf 0 true (txBinReduced sf v) = v := by
  set parity := ((range 16).map fun i => (v.getLsbD i).toNat).sum % 2 with hparity
  set w := (v <<< 2) ||| BitVec.ofNat 16 (2 * parity) with hw
  have hpow : 2 ^ sf = 4 * 2 ^ (sf - 2) := by
    rw [show sf = sf - 2 + 2 by omega, pow_add]
    simp [Nat.mul_comm]
  have hbound : 2 ^ sf ≤ 2 ^ 16 := Nat.pow_le_pow_right (by omega) hmax
  have hpar : 2 * parity < 4 := by omega
  have hwNat : w.toNat = 4 * v.toNat + 2 * parity := by
    have hshift : (v <<< 2).toNat = v.toNat * 2 ^ 2 := by
      rw [BitVec.toNat_shiftLeft, Nat.shiftLeft_eq]
      exact Nat.mod_eq_of_lt (by omega)
    rw [hw, BitVec.toNat_or, hshift, BitVec.toNat_ofNat, Nat.mod_eq_of_lt (by omega),
      ← Nat.shiftLeft_eq, ← Nat.shiftLeft_add_eq_or_of_lt (by omega), Nat.shiftLeft_eq]
    omega
  have hwlt : w.toNat < 2 ^ sf := by omega
  have hshift : w >>> 2 = v := by
    apply BitVec.eq_of_toNat_eq
    rw [BitVec.toNat_ushiftRight, hwNat, Nat.shiftRight_eq_div_pow]
    omega
  have hquarter : BitVec.ofNat 16 ((loraGrayEncode w).toNat / 4) = loraGrayEncode w >>> 2 := by
    apply BitVec.eq_of_toNat_eq
    rw [BitVec.toNat_ofNat, BitVec.toNat_ushiftRight, Nat.shiftRight_eq_div_pow]
    exact Nat.mod_eq_of_lt (by have := (loraGrayEncode w).isLt; omega)
  have hcommute : loraGrayDecode (loraGrayEncode w >>> 2) = loraGrayDecode (loraGrayEncode w) >>> 2 := by
    unfold loraGrayDecode
    rw [BitVec.ushiftRight_xor_distrib, ← BitVec.shiftRight_add, ← BitVec.shiftRight_add,
      Nat.add_comm]
  unfold demodValue
  rw [show txBinReduced sf v = txBin sf w from rfl, modPos_txBin hwlt]
  simp only [Int.toNat_natCast, if_true]
  rw [hquarter, hcommute, loraGrayDecode_encode, hshift]

end MeshcoreSniffer.Lora
