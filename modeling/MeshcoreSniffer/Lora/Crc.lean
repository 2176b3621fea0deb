import MeshcoreSniffer.Lib.ShiftRegister
import MeshcoreSniffer.Lib.BitFlip

/-!
# The LoRa payload checksum

`payloadCrc` is the remainder of the whole payload (`wantCrc_frame`), so a bit flip is an exclusive
or with a power of `x`; the period of `x` tells two flips apart (`syndrome_injective`), the factor
`x + 1` one flip from two (`parity_syndrome`).
-/

namespace MeshcoreSniffer.Lora

open Lib Function List

def crcPoly : BitVec 16 := 0x1021#16

def crcStep (crc : BitVec 16) : BitVec 16 :=
  if crc &&& 0x8000#16 ≠ 0#16 then (crc <<< 1) ^^^ crcPoly else crc <<< 1

/-- Each byte enters at the top, then eight turns. -/
def loraCrc16 (data : List Byte) : BitVec 16 :=
  data.foldl (fun (crc : BitVec 16) (b : Byte) => crcStep^[8] (crc ^^^ (b.setWidth 16 <<< 8)))
    0x0000#16

def gotCrc (bytes : List Byte) : BitVec 16 :=
  let byteCount := bytes.length
  (bytes.getD (byteCount - 2) 0#8).setWidth 16 |||
    ((bytes.getD (byteCount - 1) 0#8).setWidth 16 <<< 8)

/-- CRC over all but the last two payload bytes, exclusive-ored with those two. -/
def wantCrc (bytes : List Byte) : BitVec 16 :=
  let payLen := bytes.length - 2
  loraCrc16 (bytes.take (payLen - 2)) ^^^ (bytes.getD (payLen - 1) 0#8).setWidth 16 ^^^
    ((bytes.getD (payLen - 2) 0#8).setWidth 16 <<< 8)

def crcMatches (bytes : List Byte) : Bool := gotCrc bytes == wantCrc bytes

/-! ## The checksum as a remainder -/

/-- The remainder of the payload, read as a polynomial, modulo the CCITT
polynomial. -/
def payloadCrc (payload : List Byte) : BitVec 16 :=
  payload.foldl (fun (r : BitVec 16) (b : Byte) => crcStep^[8] r ^^^ b.setWidth 16) 0#16

def trailerBytes (crc : BitVec 16) : List Byte := [crc.setWidth 8, (crc >>> 8).setWidth 8]

theorem crcStep_eq_step : crcStep = ShiftRegister.step crcPoly := by
  funext s
  have hmask : (s &&& 0x8000#16 ≠ 0#16) ↔ s.msb = true := by
    rw [BitVec.msb_eq_getLsbD_last]
    constructor
    · intro h
      by_contra hb
      refine h (BitVec.eq_of_getLsbD_eq fun i hi => ?_)
      rw [BitVec.getLsbD_and]
      interval_cases i <;> simp_all
    · intro h h0
      have hbit := congrArg (fun v : BitVec 16 => v.getLsbD 15) h0
      simp only [BitVec.getLsbD_and, h] at hbit
      exact absurd hbit (by decide)
  unfold crcStep ShiftRegister.step
  by_cases h : s.msb = true
  · rw [if_pos (hmask.mpr h), if_pos h]
  · rw [if_neg (fun hm => h (hmask.mp hm)), if_neg h]

theorem crcStep_xor (n : Nat) (a b : BitVec 16) :
    crcStep^[n] (a ^^^ b) = crcStep^[n] a ^^^ crcStep^[n] b := by
  rw [crcStep_eq_step]
  exact ShiftRegister.iterate_xor crcPoly n a b

@[simp] theorem crcStep_zero (n : Nat) : crcStep^[n] 0#16 = 0#16 := by
  rw [crcStep_eq_step]
  exact ShiftRegister.iterate_zero_state crcPoly n

theorem crcStep_byte (b : Byte) : crcStep^[8] (b.setWidth 16) = b.setWidth 16 <<< 8 := by
  revert b
  decide

theorem loraCrc16_eq (data : List Byte) : loraCrc16 data = crcStep^[16] (payloadCrc data) := by
  unfold loraCrc16 payloadCrc
  induction data using reverseRecOn with
  | nil => simp
  | append_singleton data b ih =>
    rw [foldl_append, foldl_append, ih]
    simp only [foldl_cons, foldl_nil]
    rw [crcStep_xor, crcStep_xor, ← crcStep_byte, ← iterate_add_apply, ← iterate_add_apply,
      ← iterate_add_apply]

variable (payload : List Byte)

theorem payloadCrc_append_singleton (b : Byte) :
    payloadCrc (payload ++ [b]) = crcStep^[8] (payloadCrc payload) ^^^ b.setWidth 16 := by
  simp [payloadCrc, foldl_append]

theorem payloadCrc_replicate_zero_append (n : Nat) (payload : List Byte) :
    payloadCrc (replicate n 0#8 ++ payload) = payloadCrc payload := by
  have hzero : ∀ n, payloadCrc (replicate n 0#8) = 0#16 := by
    intro n
    induction n with
    | zero => rfl
    | succ n ih => rw [replicate_succ', payloadCrc_append_singleton, ih, crcStep_zero]; rfl
  induction payload using reverseRecOn with
  | nil => rw [append_nil, hzero]; rfl
  | append_singleton payload b ih =>
    rw [← append_assoc, payloadCrc_append_singleton, payloadCrc_append_singleton, ih]

def trailerWord (t0 t1 : Byte) : BitVec 16 := t0.setWidth 16 ||| (t1.setWidth 16 <<< 8)

theorem trailerWord_trailerBytes (crc : BitVec 16) :
    trailerWord (crc.setWidth 8) ((crc >>> 8).setWidth 8) = crc := by
  apply BitVec.eq_of_getLsbD_eq
  intro i hi
  simp only [trailerWord, BitVec.getLsbD_or, BitVec.getLsbD_setWidth, BitVec.getLsbD_shiftLeft,
    BitVec.getLsbD_ushiftRight]
  by_cases hlow : i < 8
  · simp [hi, hlow]
  · have hhi : i - 8 < 8 := by omega
    have hsum : 8 + (i - 8) = i := by omega
    simp [hi, hlow, hhi, hsum, show i - 8 < 16 by omega]

theorem gotCrc_frame (t0 t1 : Byte) : gotCrc (payload ++ [t0, t1]) = trailerWord t0 t1 := by
  simp [gotCrc, trailerWord, getD_eq_getElem?_getD]

theorem wantCrc_frame (t0 t1 : Byte) (hlen : 2 ≤ payload.length) :
    wantCrc (payload ++ [t0, t1]) = payloadCrc payload := by
  obtain ⟨q, a, b, rfl⟩ : ∃ q a b, payload = q ++ [a] ++ [b] := by
    rcases eq_nil_or_concat payload with rfl | ⟨q', b, rfl⟩
    · simp at hlen
    · rcases eq_nil_or_concat q' with rfl | ⟨q, a, rfl⟩
      · simp at hlen
      · exact ⟨q, a, b, by simp⟩
  rw [payloadCrc_append_singleton, payloadCrc_append_singleton, crcStep_xor, crcStep_byte,
    ← iterate_add_apply]
  have htake : ((q ++ [a] ++ [b]) ++ [t0, t1]).take q.length = q := by simp
  have hlenFrame : ((q ++ [a] ++ [b]) ++ [t0, t1]).length - 2 = q.length + 2 := by simp
  simp only [wantCrc, hlenFrame, show q.length + 2 - 2 = q.length by omega, htake, loraCrc16_eq]
  simp [getD_eq_getElem?_getD]
  ac_rfl

theorem crcMatches_frame (t0 t1 : Byte) (hlen : 2 ≤ payload.length) :
    crcMatches (payload ++ [t0, t1]) = true ↔ trailerWord t0 t1 = payloadCrc payload := by
  simp [crcMatches, gotCrc_frame, wantCrc_frame payload t0 t1 hlen]

theorem frame_split {bytes : List Byte} (hlen : 4 ≤ bytes.length) :
    ∃ payload t0 t1, bytes = payload ++ [t0, t1] ∧ 2 ≤ payload.length := by
  rcases eq_nil_or_concat bytes with rfl | ⟨q, t1, rfl⟩
  · simp at hlen
  · rcases eq_nil_or_concat q with rfl | ⟨payload, t0, rfl⟩
    · simp at hlen
    · refine ⟨payload, t0, t1, by simp, ?_⟩
      simp at hlen
      omega

/-! ## Bit flips -/

/-- What flipping payload bit `bit` of `n` bytes does to the checksum: a power of `x`. -/
def syndrome (n bit : Nat) : BitVec 16 := crcStep^[8 * (n - 1 - bit / 8) + bit % 8] 1#16

theorem payloadCrc_flipBit (bit : Nat) (hbit : bit < 8 * payload.length) :
    payloadCrc (flipBit payload bit) = payloadCrc payload ^^^ syndrome payload.length bit := by
  induction payload using reverseRecOn with
  | nil => simp at hbit
  | append_singleton q b ih =>
    simp only [length_append, length_singleton] at hbit ⊢
    by_cases hq : bit < 8 * q.length
    · -- the flip lies in the prefix and is shifted once more
      rw [flipBit_append_left q [b] bit hq, payloadCrc_append_singleton,
        payloadCrc_append_singleton, ih hq, crcStep_xor]
      have hsyn : crcStep^[8] (syndrome q.length bit) = syndrome (q.length + 1) bit := by
        unfold syndrome
        rw [← iterate_add_apply]
        congr 1
        omega
      rw [hsyn]
      ac_rfl
    · -- the flip lies in the last byte
      have hbyte : bit / 8 = q.length := by omega
      have hflip : flipBit (q ++ [b]) bit = q ++ [b ^^^ (1#8 <<< (bit % 8))] := by
        simp [flipBit, hbyte, modify_eq_take_cons_drop]
      have hmask : ∀ m < 8, (1#8 <<< m).setWidth 16 = crcStep^[m] 1#16 := by decide
      rw [hflip, payloadCrc_append_singleton, payloadCrc_append_singleton, BitVec.setWidth_xor,
        hmask _ (Nat.mod_lt _ (by omega)), ← BitVec.xor_assoc]
      congr 1
      congr 1
      omega

theorem crcStep_period : minimalPeriod crcStep 1#16 = 32767 := by
  rw [crcStep_eq_step]
  apply ShiftRegister.minimalPeriod_eq_of_prime_quotients
  · rw [show 32767 = ShiftRegister.ofDigits (replicate 15 true) by decide,
      ← ShiftRegister.power_eq_iterate]
    decide +kernel
  · intro p hp hdvd
    have hfactor : p = 7 ∨ p = 31 ∨ p = 151 := by
      rw [show 32767 = 7 * 31 * 151 by norm_num, hp.dvd_mul, hp.dvd_mul,
        Nat.prime_dvd_prime_iff_eq hp (by norm_num), Nat.prime_dvd_prime_iff_eq hp (by norm_num),
        Nat.prime_dvd_prime_iff_eq hp (by norm_num)] at hdvd
      tauto
    -- the three maximal proper divisors, written in binary
    rcases hfactor with rfl | rfl | rfl
    · rw [show 32767 / 7 = ShiftRegister.ofDigits [true, false, false, true, false, false, true,
          false, false, true, false, false, true] by decide, ← ShiftRegister.power_eq_iterate]
      decide +kernel
    · rw [show 32767 / 31 = ShiftRegister.ofDigits [true, false, false, false, false, true, false,
          false, false, false, true] by decide, ← ShiftRegister.power_eq_iterate]
      decide +kernel
    · rw [show 32767 / 151 = ShiftRegister.ofDigits [true, true, false, true, true, false, false,
          true] by decide, ← ShiftRegister.power_eq_iterate]
      decide +kernel

theorem syndrome_injective {n i j : Nat} (hn : n ≤ 4095) (hi : i < 8 * n) (hj : j < 8 * n)
    (h : syndrome n i = syndrome n j) : i = j := by
  have hexp := (iterate_eq_iterate_iff_of_lt_minimalPeriod
    (by rw [crcStep_period]; omega) (by rw [crcStep_period]; omega)).mp h
  omega

theorem parity_syndrome (n bit : Nat) : ShiftRegister.parity (syndrome n bit) = 1 := by
  have hpoly : ShiftRegister.parity crcPoly = 1 := by decide
  rw [syndrome, crcStep_eq_step, ShiftRegister.parity_iterate hpoly]
  decide

end MeshcoreSniffer.Lora
