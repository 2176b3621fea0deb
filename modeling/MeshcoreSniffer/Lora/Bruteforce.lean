import MeshcoreSniffer.Lora.Crc
import MeshcoreSniffer.Lib.Search

/-!
# CRC brute-force correction

A flip adds its syndrome to the mismatch `crcTarget` (`crcTarget_flipBit`), so flips repair the
frame exactly when their syndromes sum to it.
-/

namespace MeshcoreSniffer.Lora

open Lib List

/-- Returned flag and the buffer it leaves. The trailer is read once, before the loop. -/
def loraCrcBruteforceCorrect (bytes : List Byte) : Bool × List Byte :=
  if bytes.length < 4 then (false, bytes)
  else
    let payLen := bytes.length - 2
    let got := gotCrc bytes
    Search.tryEach (fun bit bs => flipBit bs bit) (fun bs => got == wantCrc bs)
      (List.range (payLen * 8)) bytes

/-- `cur` is the row of byte `j - 1`, and each byte further down takes eight more turns. -/
def deltaBackward (cur : List (BitVec 16)) : Nat → List (BitVec 16) → List (BitVec 16)
  | 0, delta => delta
  | j + 1, delta =>
    deltaBackward (if j > 0 then cur.map (fun s => crcStep^[8] s) else cur) j (cur ++ delta)

/-- The last two payload bytes are exclusive-ored in directly, all others go through the register.
-/
def deltaTable (payLen : Nat) : List (BitVec 16) :=
  let direct := (List.range 8).map (fun m => 1#16 <<< (8 + m)) ++
    (List.range 8).map (fun m => 1#16 <<< m)
  let cur := (List.range 8).map (fun m => crcStep^[8] (1#16 <<< (8 + m)))
  deltaBackward cur (payLen - 2) direct

/-- `lora_crc_bruteforce_correct_2bit`, with both allocations succeeding. -/
def loraCrcBruteforceCorrect2bit (bytes : List Byte) : Bool × List Byte :=
  if bytes.length < 4 then (false, bytes)
  else
    let payLen := bytes.length - 2
    let nBits := payLen * 8
    let target := wantCrc bytes ^^^ gotCrc bytes
    if target = 0#16 then (false, bytes)
    else
      let delta := deltaTable payLen
      match Search.findPair (fun i => delta.getD i 0#16) nBits target with
      | none => (false, bytes)
      | some (foundI, foundJ) => (true, flipBit (flipBit bytes foundI) foundJ)

/-! ## The mismatch and what a flip does to it -/

def crcTarget (bytes : List Byte) : BitVec 16 := wantCrc bytes ^^^ gotCrc bytes

theorem crcMatches_iff_crcTarget (bytes : List Byte) :
    crcMatches bytes = true ↔ crcTarget bytes = 0#16 := by
  rw [crcTarget, BitVec.xor_eq_zero_iff, crcMatches, beq_iff_eq, eq_comm]

variable {bytes : List Byte} {bit i j n payLen : Nat}

theorem gotCrc_flipBit (hlen : 4 ≤ bytes.length) (hbit : bit < 8 * (bytes.length - 2)) :
    gotCrc (flipBit bytes bit) = gotCrc bytes := by
  obtain ⟨payload, t0, t1, rfl, -⟩ := frame_split hlen
  have hbit' : bit < 8 * payload.length := by simpa using hbit
  rw [flipBit_append_left payload _ bit hbit', gotCrc_frame, gotCrc_frame]

theorem crcTarget_flipBit (hlen : 4 ≤ bytes.length) (hbit : bit < 8 * (bytes.length - 2)) :
    crcTarget (flipBit bytes bit) = crcTarget bytes ^^^ syndrome (bytes.length - 2) bit := by
  obtain ⟨payload, t0, t1, rfl, hpay⟩ := frame_split hlen
  have hbit' : bit < 8 * payload.length := by simpa using hbit
  unfold crcTarget
  rw [flipBit_append_left payload _ bit hbit', gotCrc_frame, gotCrc_frame,
    wantCrc_frame payload t0 t1 hpay, wantCrc_frame _ t0 t1 (by simpa using hpay),
    payloadCrc_flipBit payload bit hbit']
  simp only [length_append, length_cons, length_nil, Nat.add_sub_cancel]
  ac_rfl

theorem crcMatches_flipBit (hlen : 4 ≤ bytes.length) (hbit : bit < 8 * (bytes.length - 2)) :
    crcMatches (flipBit bytes bit) = true ↔ syndrome (bytes.length - 2) bit = crcTarget bytes := by
  rw [crcMatches_iff_crcTarget, crcTarget_flipBit hlen hbit, BitVec.xor_eq_zero_iff, eq_comm]

theorem crcMatches_flipBit_flipBit (hlen : 4 ≤ bytes.length) (hi : i < 8 * (bytes.length - 2))
    (hj : j < 8 * (bytes.length - 2)) : crcMatches (flipBit (flipBit bytes i) j) = true ↔
      syndrome (bytes.length - 2) i ^^^ syndrome (bytes.length - 2) j = crcTarget bytes := by
  rw [crcMatches_flipBit (by simpa using hlen) (by simpa using hj), crcTarget_flipBit hlen hi,
    length_flipBit]
  constructor
  · intro h
    rw [h, BitVec.xor_comm, BitVec.xor_assoc, BitVec.xor_self, BitVec.xor_zero]
  · intro h
    rw [← h, BitVec.xor_comm, ← BitVec.xor_assoc, BitVec.xor_self, BitVec.zero_xor]

/-! ## One bit -/

def firstFix (bytes : List Byte) : Option Nat :=
  (List.range (8 * (bytes.length - 2))).find? fun bit => crcMatches (flipBit bytes bit)

theorem loraCrcBruteforceCorrect_eq (hlen : 4 ≤ bytes.length) : loraCrcBruteforceCorrect bytes =
      Search.keep (fun bit bs => flipBit bs bit) bytes (firstFix bytes) := by
  unfold loraCrcBruteforceCorrect firstFix
  rw [if_neg (by omega), Search.tryEach_eq_find _ _ (fun bit bs => flipBit_flipBit bs bit),
    Nat.mul_comm (bytes.length - 2)]
  congr 1
  apply find?_congr
  intro bit hbit
  rw [crcMatches, gotCrc_flipBit hlen (mem_range.mp hbit)]

theorem loraCrcBruteforceCorrect_short (hlen : bytes.length < 4) :
    loraCrcBruteforceCorrect bytes = (false, bytes) := by
  unfold loraCrcBruteforceCorrect
  rw [if_pos hlen]

theorem firstFix_some (h : firstFix bytes = some bit) :
    bit < 8 * (bytes.length - 2) ∧ crcMatches (flipBit bytes bit) = true :=
  ⟨mem_range.mp (mem_of_find?_eq_some h), by simpa using find?_some h⟩

theorem firstFix_eq_some_iff (hlen : 4 ≤ bytes.length) (hmax : bytes.length ≤ 4097) :
    firstFix bytes = some bit ↔
      bit < 8 * (bytes.length - 2) ∧ crcMatches (flipBit bytes bit) = true := by
  constructor
  · exact firstFix_some
  · rintro ⟨hbit, hmatch⟩
    have hfound : (firstFix bytes).isSome := by
      rw [firstFix, find?_isSome]
      exact ⟨bit, mem_range.mpr hbit, hmatch⟩
    obtain ⟨bit', hbit'⟩ := Option.isSome_iff_exists.mp hfound
    obtain ⟨hlt', hmatch'⟩ := firstFix_some hbit'
    rw [crcMatches_flipBit hlen hbit] at hmatch
    rw [crcMatches_flipBit hlen hlt'] at hmatch'
    rw [hbit', syndrome_injective (by omega) hlt' hbit (hmatch'.trans hmatch.symm)]

theorem loraCrcBruteforceCorrect_false (h : (loraCrcBruteforceCorrect bytes).1 = false) :
    (loraCrcBruteforceCorrect bytes).2 = bytes := by
  by_cases hlen : bytes.length < 4
  · rw [loraCrcBruteforceCorrect_short hlen]
  · rw [loraCrcBruteforceCorrect_eq (by omega)] at h ⊢
    cases hfix : firstFix bytes with
    | none => rfl
    | some bit => simp [hfix, Search.keep] at h

theorem loraCrcBruteforceCorrect_true (h : (loraCrcBruteforceCorrect bytes).1 = true) :
    ∃ bit < 8 * (bytes.length - 2), (loraCrcBruteforceCorrect bytes).2 = flipBit bytes bit ∧
      crcMatches (flipBit bytes bit) = true := by
  by_cases hlen : bytes.length < 4
  · simp [loraCrcBruteforceCorrect_short hlen] at h
  · rw [loraCrcBruteforceCorrect_eq (by omega)] at h ⊢
    cases hfix : firstFix bytes with
    | none => simp [hfix, Search.keep] at h
    | some bit =>
      obtain ⟨hbit, hmatch⟩ := firstFix_some hfix
      exact ⟨bit, hbit, rfl, hmatch⟩

/-- **Single-bit recovery.** On every intact frame of 2 to 4095 payload bytes, whichever payload bit
was flipped, the search restores the frame, and no other flip satisfies the checksum; a search that
fails changes nothing. -/
theorem bruteforceCorrect_restores :
    (∀ (sent : List Byte) (bit : Nat), 4 ≤ sent.length → sent.length ≤ 4097 →
      crcMatches sent = true → bit < 8 * (sent.length - 2) →
      loraCrcBruteforceCorrect (flipBit sent bit) = (true, sent) ∧
        ∀ bit' < 8 * (sent.length - 2),
          crcMatches (flipBit (flipBit sent bit) bit') = true → bit' = bit) ∧
    ∀ bytes : List Byte, (loraCrcBruteforceCorrect bytes).1 = false →
      (loraCrcBruteforceCorrect bytes).2 = bytes := by
  refine ⟨?_, fun bytes => loraCrcBruteforceCorrect_false⟩
  intro sent bit hlen hmax hmatch hbit
  have hfix : ∀ bit', firstFix (flipBit sent bit) = some bit' ↔
      bit' < 8 * (sent.length - 2) ∧ crcMatches (flipBit (flipBit sent bit) bit') = true := by
    intro bit'
    rw [firstFix_eq_some_iff (by simpa using hlen) (by simpa using hmax), length_flipBit]
  have hback : firstFix (flipBit sent bit) = some bit :=
    (hfix bit).mpr ⟨hbit, by rwa [flipBit_flipBit]⟩
  refine ⟨?_, ?_⟩
  · rw [loraCrcBruteforceCorrect_eq (by simpa using hlen), hback, Search.keep, flipBit_flipBit]
  · intro bit' hlt hmatch'
    have hother := (hfix bit').mpr ⟨hlt, hmatch'⟩
    rw [hback] at hother
    exact (Option.some.inj hother).symm

theorem bruteforceCorrect_restores_two :
    loraCrcBruteforceCorrect (flipBit [0x01#8, 0x02#8, 0x02#8, 0x01#8] 9)
      = (true, [0x01#8, 0x02#8, 0x02#8, 0x01#8]) :=
  (bruteforceCorrect_restores.1 [0x01#8, 0x02#8, 0x02#8, 0x01#8] 9 (by decide) (by decide)
    (by decide) (by decide)).1

/-! ## Two bits -/

/-- The part of the table from byte `j` on, written with the syndromes. -/
def syndromesFrom (n j : Nat) : List (BitVec 16) :=
  (List.range' (8 * j) (8 * (n - j))).map (syndrome n)

theorem syndromesFrom_eq_row_append (hj : j < n) : syndromesFrom n j =
      (range 8).map (fun m => crcStep^[8 * (n - 1 - j) + m] 1#16) ++
        syndromesFrom n (j + 1) := by
  unfold syndromesFrom
  have hsplit : 8 * (n - j) = 8 + 8 * (n - (j + 1)) := by omega
  rw [hsplit, ← range'_append_1, map_append]
  congr 1
  rw [range_eq_range', range'_eq_map_range, range'_eq_map_range, map_map,
    map_map]
  apply map_congr_left
  intro m hm
  have hm8 : m < 8 := mem_range.mp hm
  simp only [Function.comp, syndrome, Nat.zero_add]
  congr 1
  omega

theorem deltaBackward_eq (hj : j < n) :
    deltaBackward ((range 8).map (fun m => crcStep^[8 * (n - 1 - (j - 1)) + m] 1#16)) j
      (syndromesFrom n j) = syndromesFrom n 0 := by
  induction j with
  | zero => rfl
  | succ j ih =>
    rw [deltaBackward, Nat.add_sub_cancel, ← syndromesFrom_eq_row_append (by omega)]
    cases j with
    | zero => rfl
    | succ j =>
      rw [if_pos (by omega), map_map, ← ih (by omega)]
      congr 1
      apply map_congr_left
      intro m _
      rw [Function.comp, ← Function.iterate_add_apply]
      congr 1
      omega

theorem deltaTable_eq (h : 2 ≤ payLen) :
    deltaTable payLen = (range (8 * payLen)).map (syndrome payLen) := by
  obtain ⟨k, rfl⟩ : ∃ k, payLen = k + 2 := ⟨payLen - 2, by omega⟩
  have hdirect : (range 8).map (fun m => 1#16 <<< (8 + m)) ++
      (range 8).map (fun m => 1#16 <<< m) = syndromesFrom (k + 2) k := by
    rw [syndromesFrom_eq_row_append (by omega), syndromesFrom_eq_row_append (by omega)]
    simp only [show k + 2 - 1 - k = 1 by omega, show k + 2 - 1 - (k + 1) = 0 by omega,
      syndromesFrom, show k + 2 - (k + 1 + 1) = 0 by omega, Nat.mul_zero, range'_zero,
      map_nil]
    decide
  have hcur : (range 8).map (fun m => crcStep^[8] (1#16 <<< (8 + m))) =
      (range 8).map (fun m => crcStep^[8 * 2 + m] 1#16) := by decide
  have hall : (range (8 * (k + 2))).map (syndrome (k + 2)) = syndromesFrom (k + 2) 0 := by
    rw [syndromesFrom, range_eq_range']
    rfl
  rw [hall, deltaTable, hdirect, hcur, Nat.add_sub_cancel]
  cases k with
  | zero => rfl
  | succ k =>
    rw [← deltaBackward_eq (show k + 1 < k + 1 + 2 by omega),
      show k + 1 + 2 - 1 - (k + 1 - 1) = 2 by omega]

theorem deltaTable_getD (h : 2 ≤ payLen) (hi : i < 8 * payLen) :
    (deltaTable payLen).getD i 0#16 = syndrome payLen i := by
  simp [deltaTable_eq h, hi]

def firstPairFix (bytes : List Byte) : Option (Nat × Nat) :=
  Search.findPair (fun i => (deltaTable (bytes.length - 2)).getD i 0#16)
    (8 * (bytes.length - 2)) (crcTarget bytes)

theorem loraCrcBruteforceCorrect2bit_eq (hlen : 4 ≤ bytes.length) (hfail : crcMatches bytes = false) :
    loraCrcBruteforceCorrect2bit bytes =
      Search.keep (fun ij bs => flipBit (flipBit bs ij.1) ij.2) bytes (firstPairFix bytes) := by
  have htarget : wantCrc bytes ^^^ gotCrc bytes ≠ 0#16 := by
    intro h
    rw [(crcMatches_iff_crcTarget bytes).mpr h] at hfail
    exact absurd hfail (by decide)
  unfold loraCrcBruteforceCorrect2bit firstPairFix
  rw [if_neg (by omega)]
  simp only [htarget, if_false, crcTarget, Nat.mul_comm (bytes.length - 2) 8]
  split
  next h => rw [h, Search.keep]
  next i j h => rw [h, Search.keep]

theorem loraCrcBruteforceCorrect2bit_matching (hmatch : crcMatches bytes = true) :
    loraCrcBruteforceCorrect2bit bytes = (false, bytes) := by
  have htarget : wantCrc bytes ^^^ gotCrc bytes = 0#16 := (crcMatches_iff_crcTarget bytes).mp hmatch
  unfold loraCrcBruteforceCorrect2bit
  simp only [htarget, if_true, ite_self]

theorem firstPairFix_some (hlen : 4 ≤ bytes.length) (h : firstPairFix bytes = some (i, j)) :
    i < 8 * (bytes.length - 2) ∧ j < 8 * (bytes.length - 2) ∧ i ≠ j ∧
      crcMatches (flipBit (flipBit bytes i) j) = true := by
  obtain ⟨hi, hj, hne, hsum⟩ := Search.findPair_some _ h
  refine ⟨hi, hj, hne, ?_⟩
  rw [crcMatches_flipBit_flipBit hlen hi hj, ← hsum, deltaTable_getD (by omega) hi,
    deltaTable_getD (by omega) hj]

theorem firstPairFix_isSome_iff (hlen : 4 ≤ bytes.length) (hfail : crcMatches bytes = false) :
    (firstPairFix bytes).isSome ↔
      ∃ i j, i < 8 * (bytes.length - 2) ∧ j < 8 * (bytes.length - 2) ∧ i ≠ j ∧
        crcMatches (flipBit (flipBit bytes i) j) = true := by
  have htarget : crcTarget bytes ≠ 0 := by
    intro h
    rw [(crcMatches_iff_crcTarget bytes).mpr h] at hfail
    exact absurd hfail (by decide)
  rw [firstPairFix, Search.findPair_isSome_iff _ htarget]
  constructor
  · rintro ⟨i, j, hi, hj, hne, hsum⟩
    refine ⟨i, j, hi, hj, hne, ?_⟩
    rwa [crcMatches_flipBit_flipBit hlen hi hj, ← deltaTable_getD (by omega) hi,
      ← deltaTable_getD (by omega) hj]
  · rintro ⟨i, j, hi, hj, hne, hmatch⟩
    refine ⟨i, j, hi, hj, hne, ?_⟩
    rwa [deltaTable_getD (by omega) hi, deltaTable_getD (by omega) hj,
      ← crcMatches_flipBit_flipBit hlen hi hj]

theorem loraCrcBruteforceCorrect2bit_true (h : (loraCrcBruteforceCorrect2bit bytes).1 = true) :
    ∃ i j, i < 8 * (bytes.length - 2) ∧ j < 8 * (bytes.length - 2) ∧ i ≠ j ∧
      (loraCrcBruteforceCorrect2bit bytes).2 = flipBit (flipBit bytes i) j ∧
      crcMatches (flipBit (flipBit bytes i) j) = true := by
  by_cases hlen : bytes.length < 4
  · simp [loraCrcBruteforceCorrect2bit, hlen] at h
  · cases hcrc : crcMatches bytes with
    | true => simp [loraCrcBruteforceCorrect2bit_matching hcrc] at h
    | false =>
      rw [loraCrcBruteforceCorrect2bit_eq (by omega) hcrc] at h ⊢
      cases hpair : firstPairFix bytes with
      | none => simp [hpair, Search.keep] at h
      | some ij =>
        obtain ⟨i, j⟩ := ij
        obtain ⟨hi, hj, hne, hmatch⟩ := firstPairFix_some (by omega) hpair
        exact ⟨i, j, hi, hj, hne, rfl, hmatch⟩

theorem drop_flipBit (hbit : bit < 8 * n) (hn : n ≤ bytes.length) :
    (flipBit bytes bit).drop n = bytes.drop n := by
  conv_lhs => rw [← take_append_drop n bytes]
  rw [flipBit_append_left _ _ bit (by simpa [hn] using hbit)]
  exact drop_left' (by simp [hn])

/-- **Two-bit recovery.** On a failing frame of four bytes or more the table search succeeds exactly
when some pair of payload flips satisfies the checksum, and then makes one; a matching frame is
refused; a failure changes nothing. -/
theorem bruteforceCorrect2bit_iff_pair (bytes : List Byte) (hlen : 4 ≤ bytes.length) :
    (crcMatches bytes = false →
      ((loraCrcBruteforceCorrect2bit bytes).1 = true ↔
        ∃ i j, i < 8 * (bytes.length - 2) ∧ j < 8 * (bytes.length - 2) ∧ i ≠ j ∧
          crcMatches (flipBit (flipBit bytes i) j) = true)) ∧
    ((loraCrcBruteforceCorrect2bit bytes).1 = true →
      let fixed := (loraCrcBruteforceCorrect2bit bytes).2
      fixed.length = bytes.length ∧ (diffBits bytes fixed).card = 2 ∧
        (∀ bit ∈ diffBits bytes fixed, bit < 8 * (bytes.length - 2)) ∧
        fixed.drop (bytes.length - 2) = bytes.drop (bytes.length - 2) ∧
        crcMatches fixed = true) ∧
    (crcMatches bytes = true → (loraCrcBruteforceCorrect2bit bytes).1 = false) ∧
    ((loraCrcBruteforceCorrect2bit bytes).1 = false →
      (loraCrcBruteforceCorrect2bit bytes).2 = bytes) := by
  cases hcrc : crcMatches bytes with
  | true => simp [loraCrcBruteforceCorrect2bit_matching hcrc]
  | false =>
    have hiff := firstPairFix_isSome_iff hlen hcrc
    rw [loraCrcBruteforceCorrect2bit_eq hlen hcrc]
    cases hpair : firstPairFix bytes with
    | none =>
      rw [hpair] at hiff
      simpa [Search.keep] using hiff
    | some ij =>
      obtain ⟨i, j⟩ := ij
      rw [hpair] at hiff
      obtain ⟨hi, hj, hne, hmatch⟩ := firstPairFix_some hlen hpair
      have hdiff : diffBits bytes (flipBit (flipBit bytes i) j) = {i, j} :=
        diffBits_flipBit_flipBit bytes (by omega) (by omega) hne
      refine ⟨fun _ => ⟨fun _ => hiff.mp rfl, fun _ => rfl⟩, fun _ => ?_, by simp, by
        simp [Search.keep]⟩
      refine ⟨by simp [Search.keep], ?_, ?_, ?_, hmatch⟩
      · simp only [Search.keep]
        rw [hdiff, Finset.card_pair hne]
      · simp only [Search.keep]
        intro bit hbit
        rw [hdiff] at hbit
        rcases Finset.mem_insert.mp hbit with rfl | hbit
        · exact hi
        · rw [Finset.mem_singleton.mp hbit]
          exact hj
      · simp only [Search.keep]
        rw [drop_flipBit hj (by simp), drop_flipBit hi (by omega)]

theorem bruteforceCorrect2bit_iff_pair_two :
    (loraCrcBruteforceCorrect2bit [0x00#8, 0x00#8, 0x02#8, 0x01#8]).1 = true :=
  ((bruteforceCorrect2bit_iff_pair [0x00#8, 0x00#8, 0x02#8, 0x01#8] (by decide)).1
    (by decide)).mpr ⟨0, 9, by decide, by decide, by decide, by decide⟩

/-! ## One flip or two -/

theorem syndrome_ne_syndrome_xor (n bit i j : Nat) :
    syndrome n bit ≠ syndrome n i ^^^ syndrome n j := by
  intro h
  have hparity := congrArg ShiftRegister.parity h
  rw [ShiftRegister.parity_xor, parity_syndrome, parity_syndrome, parity_syndrome] at hparity
  exact absurd hparity (by decide)

/-- **Exclusive tiers.** No failing frame is repaired by both searches. A valid frame with two
payload bits inverted comes out of the single-bit search as it went in. -/
theorem bruteforce_tiers_exclusive :
    (∀ bytes : List Byte, 4 ≤ bytes.length → crcMatches bytes = false →
      ¬((loraCrcBruteforceCorrect bytes).1 = true ∧
        (loraCrcBruteforceCorrect2bit bytes).1 = true)) ∧
    ∀ (sent : List Byte) (i j : Nat), crcMatches sent = true → i < 8 * (sent.length - 2) →
      j < 8 * (sent.length - 2) → i ≠ j →
      loraCrcBruteforceCorrect (flipBit (flipBit sent i) j) =
        (false, flipBit (flipBit sent i) j) := by
  refine ⟨?_, ?_⟩
  · rintro bytes hlen - ⟨hone, htwo⟩
    obtain ⟨bit, hbit, -, hmatch⟩ := loraCrcBruteforceCorrect_true hone
    obtain ⟨i, j, hi, hj, -, -, hpair⟩ := loraCrcBruteforceCorrect2bit_true htwo
    rw [crcMatches_flipBit hlen hbit] at hmatch
    rw [crcMatches_flipBit_flipBit hlen hi hj] at hpair
    exact syndrome_ne_syndrome_xor _ bit i j (hmatch.trans hpair.symm)
  · intro sent i j hsent hi hj _
    have hlen2 : (flipBit (flipBit sent i) j).length = sent.length := by
      rw [length_flipBit, length_flipBit]
    by_cases hlen : sent.length < 4
    · exact loraCrcBruteforceCorrect_short (by rwa [hlen2])
    · have hlen : 4 ≤ sent.length := not_lt.mp hlen
      have hfalse : (loraCrcBruteforceCorrect (flipBit (flipBit sent i) j)).1 = false := by
        by_contra htrue
        obtain ⟨bit, hbit, -, hmatch⟩ :=
          loraCrcBruteforceCorrect_true (Bool.not_eq_false _ ▸ htrue)
        rw [hlen2] at hbit
        -- the mismatch of the garbled frame is the sum of the two syndromes
        have htarget : crcTarget (flipBit (flipBit sent i) j) =
            syndrome (sent.length - 2) i ^^^ syndrome (sent.length - 2) j := by
          rw [crcTarget_flipBit (by rwa [length_flipBit]) (by rwa [length_flipBit]),
            crcTarget_flipBit hlen hi, (crcMatches_iff_crcTarget sent).mp hsent,
            length_flipBit, BitVec.zero_xor]
        rw [crcMatches_flipBit (by rwa [hlen2]) (by rwa [hlen2]), htarget, hlen2] at hmatch
        exact syndrome_ne_syndrome_xor _ bit i j hmatch
      exact Prod.ext hfalse (loraCrcBruteforceCorrect_false hfalse)

theorem bruteforce_tiers_exclusive_two :
    loraCrcBruteforceCorrect (flipBit (flipBit [0x01#8, 0x02#8, 0x02#8, 0x01#8] 3) 12) =
      (false, [0x09#8, 0x12#8, 0x02#8, 0x01#8]) :=
  bruteforce_tiers_exclusive.2 [0x01#8, 0x02#8, 0x02#8, 0x01#8] 3 12 (by decide) (by decide)
    (by decide) (by decide)

/-! ## The two repairs in turn -/

/-- First one bit, then, where that is enabled too, two. Returns how many bits were flipped. -/
def repair (one two : Bool) (bytes : List Byte) : Nat × List Byte :=
  if one && (loraCrcBruteforceCorrect bytes).1 then (1, (loraCrcBruteforceCorrect bytes).2)
  else if one && two && (loraCrcBruteforceCorrect2bit bytes).1 then
    (2, (loraCrcBruteforceCorrect2bit bytes).2)
  else (0, bytes)

def Repairable (one two : Bool) (bytes : List Byte) : Prop :=
  one = true ∧
    ((∃ bit < 8 * (bytes.length - 2), crcMatches (flipBit bytes bit) = true) ∨
      two = true ∧ ∃ i j, i < 8 * (bytes.length - 2) ∧ j < 8 * (bytes.length - 2) ∧ i ≠ j ∧
        crcMatches (flipBit (flipBit bytes i) j) = true)

theorem loraCrcBruteforceCorrect_iff (hlen : 4 ≤ bytes.length) :
    (loraCrcBruteforceCorrect bytes).1 = true ↔
      ∃ bit < 8 * (bytes.length - 2), crcMatches (flipBit bytes bit) = true := by
  constructor
  · intro h
    obtain ⟨bit, hbit, -, hmatch⟩ := loraCrcBruteforceCorrect_true h
    exact ⟨bit, hbit, hmatch⟩
  · rintro ⟨bit, hbit, hmatch⟩
    have hfound : (firstFix bytes).isSome := by
      rw [firstFix, find?_isSome]
      exact ⟨bit, mem_range.mpr hbit, hmatch⟩
    obtain ⟨bit', hbit'⟩ := Option.isSome_iff_exists.mp hfound
    rw [loraCrcBruteforceCorrect_eq hlen, hbit', Search.keep]

theorem loraCrcBruteforceCorrect2bit_iff (hlen : 4 ≤ bytes.length)
    (hfail : crcMatches bytes = false) : (loraCrcBruteforceCorrect2bit bytes).1 = true ↔
      ∃ i j, i < 8 * (bytes.length - 2) ∧ j < 8 * (bytes.length - 2) ∧ i ≠ j ∧
        crcMatches (flipBit (flipBit bytes i) j) = true := by
  rw [← firstPairFix_isSome_iff hlen hfail, loraCrcBruteforceCorrect2bit_eq hlen hfail]
  cases firstPairFix bytes <;> simp [Search.keep]

theorem repair_ne_zero_iff {one two : Bool} (hlen : 4 ≤ bytes.length)
    (hfail : crcMatches bytes = false) :
    (repair one two bytes).1 ≠ 0 ↔ Repairable one two bytes := by
  rw [Repairable, ← loraCrcBruteforceCorrect_iff hlen,
    ← loraCrcBruteforceCorrect2bit_iff hlen hfail]
  unfold repair
  cases one <;> cases two <;> cases (loraCrcBruteforceCorrect bytes).1 <;>
    cases (loraCrcBruteforceCorrect2bit bytes).1 <;> simp

theorem repair_cases (one two : Bool) (bytes : List Byte) :
    repair one two bytes = (0, bytes) ∨
      (∃ bit < 8 * (bytes.length - 2), crcMatches (flipBit bytes bit) = true ∧
        repair one two bytes = (1, flipBit bytes bit)) ∨
      ∃ i j, i < 8 * (bytes.length - 2) ∧ j < 8 * (bytes.length - 2) ∧ i ≠ j ∧
        crcMatches (flipBit (flipBit bytes i) j) = true ∧
        repair one two bytes = (2, flipBit (flipBit bytes i) j) := by
  unfold repair
  split
  next h =>
    obtain ⟨bit, hbit, hfixed, hmatch⟩ :=
      loraCrcBruteforceCorrect_true (Bool.and_eq_true_iff.mp h).2
    exact Or.inr (Or.inl ⟨bit, hbit, hmatch, by rw [hfixed]⟩)
  next =>
    split
    next h =>
      obtain ⟨i, j, hi, hj, hne, hfixed, hmatch⟩ :=
        loraCrcBruteforceCorrect2bit_true (Bool.and_eq_true_iff.mp h).2
      exact Or.inr (Or.inr ⟨i, j, hi, hj, hne, hmatch, by rw [hfixed]⟩)
    next => exact Or.inl rfl

/-! ## Which repair is chosen -/

def FixingPair (bytes : List Byte) (i j : Nat) : Prop :=
  i < 8 * (bytes.length - 2) ∧ j < 8 * (bytes.length - 2) ∧ i ≠ j ∧
    crcMatches (flipBit (flipBit bytes i) j) = true

/-- The first single flip that makes the trailer match, or, when there is none, the first pair. -/
inductive SettledFix (bytes : List Byte) : Nat → List Byte → Prop where
  | one {i : Nat} (hlen : 4 ≤ bytes.length) (hi : i < 8 * (bytes.length - 2))
      (hmatch : crcMatches (flipBit bytes i) = true)
      (hfirst : ∀ i' < i, crcMatches (flipBit bytes i') = false) :
      SettledFix bytes 1 (flipBit bytes i)
  | two {i j : Nat} (hlen : 4 ≤ bytes.length) (hfail : crcMatches bytes = false)
      (hnone : ∀ i < 8 * (bytes.length - 2), crcMatches (flipBit bytes i) = false)
      (hpair : FixingPair bytes i j) (hfirst : ∀ i' < i, ∀ j', ¬FixingPair bytes i' j')
      (hsecond : ∀ j' < j, ¬FixingPair bytes i j') :
      SettledFix bytes 2 (flipBit (flipBit bytes i) j)

theorem SettledFix.unique {fixed fixed' : List Byte} {k k' : Nat} (h : SettledFix bytes k fixed)
    (h' : SettledFix bytes k' fixed') : k = k' ∧ fixed = fixed' := by
  cases h with
  | @one i hlen hi hmatch hfirst =>
    cases h' with
    | @one i' hlen' hi' hmatch' hfirst' =>
      -- each is the least repairing flip
      have heq : i = i' := by
        rcases Nat.lt_trichotomy i i' with hlt | heq | hgt
        · rw [hfirst' i hlt] at hmatch
          cases hmatch
        · exact heq
        · rw [hfirst i' hgt] at hmatch'
          cases hmatch'
      exact ⟨rfl, by rw [heq]⟩
    | two _ _ hnone =>
      rw [hnone _ hi] at hmatch
      cases hmatch
  | @two i j hlen hfail hnone hpair hfirst hsecond =>
    cases h' with
    | one _ hi' hmatch' =>
      rw [hnone _ hi'] at hmatch'
      cases hmatch'
    | @two i' j' _ _ _ hpair' hfirst' hsecond' =>
      have hi : i = i' := by
        rcases Nat.lt_trichotomy i i' with hlt | heq | hgt
        · exact absurd hpair (hfirst' i hlt j)
        · exact heq
        · exact absurd hpair' (hfirst i' hgt j')
      subst hi
      have hj : j = j' := by
        rcases Nat.lt_trichotomy j j' with hlt | heq | hgt
        · exact absurd hpair (hsecond' j hlt)
        · exact heq
        · exact absurd hpair' (hsecond j' hgt)
      exact ⟨rfl, by rw [hj]⟩

theorem settledFix_of_firstFix (hlen : 4 ≤ bytes.length) (h : firstFix bytes = some i) :
    SettledFix bytes 1 (flipBit bytes i) := by
  obtain ⟨hmatch, hmem, hfirst⟩ := find?_range_eq_some.mp h
  exact .one hlen (mem_range.mp hmem) hmatch fun i' hi' => by simpa using hfirst i' hi'

theorem settledFix_of_firstPairFix (hlen : 4 ≤ bytes.length) (hfail : crcMatches bytes = false)
    (hone : firstFix bytes = none) (h : firstPairFix bytes = some (i, j)) :
    SettledFix bytes 2 (flipBit (flipBit bytes i) j) := by
  have htarget : crcTarget bytes ≠ 0 := fun hzero => by
    rw [(crcMatches_iff_crcTarget bytes).mpr hzero] at hfail
    cases hfail
  obtain ⟨hfirst, hsecond⟩ := Search.findPair_first _ htarget h
  have hpair := firstPairFix_some hlen h
  -- a pair that fixes the frame is a pair of table entries with the right sum
  have hsum : ∀ i' j', FixingPair bytes i' j' →
      (deltaTable (bytes.length - 2)).getD i' 0#16 ^^^
        (deltaTable (bytes.length - 2)).getD j' 0#16 = crcTarget bytes := by
    rintro i' j' ⟨hi', hj', -, hmatch⟩
    rwa [deltaTable_getD (by omega) hi', deltaTable_getD (by omega) hj',
      ← crcMatches_flipBit_flipBit hlen hi' hj']
  refine .two hlen hfail (fun i' hi' => ?_) hpair (fun i' hi' j' hfix => ?_) fun j' hj' hfix => ?_
  · simpa using find?_eq_none.mp hone i' (mem_range.mpr hi')
  · exact hfirst i' hi' j' hfix.2.1 (hsum i' j' hfix)
  · exact hsecond j' hj' (hsum i j' hfix)

/-- **The search in words.** With both searches enabled, a repair is exactly the
settled fix. -/
theorem repair_iff_settledFix (bytes : List Byte) (k : Nat) (fixed : List Byte) :
    (repair true true bytes = (k, fixed) ∧ k ≠ 0) ↔ SettledFix bytes k fixed := by
  have hsound : ∀ {k fixed}, repair true true bytes = (k, fixed) → k ≠ 0 →
      SettledFix bytes k fixed := by
    intro k fixed hrep hk
    by_cases hlen : bytes.length < 4
    · simp only [repair, loraCrcBruteforceCorrect_short hlen, loraCrcBruteforceCorrect2bit, hlen,
        if_true, Bool.and_false, Bool.false_eq_true, if_false, Prod.mk.injEq] at hrep
      exact absurd hrep.1.symm hk
    have hlen : 4 ≤ bytes.length := not_lt.mp hlen
    simp only [repair, loraCrcBruteforceCorrect_eq hlen, Bool.true_and] at hrep
    cases hone : firstFix bytes with
    | some i =>
      simp only [hone, Search.keep, if_true, Prod.mk.injEq] at hrep
      obtain ⟨rfl, rfl⟩ := hrep
      exact settledFix_of_firstFix hlen hone
    | none =>
      cases hcrc : crcMatches bytes with
      | true =>
        simp only [hone, Search.keep, loraCrcBruteforceCorrect2bit_matching hcrc,
          Bool.false_eq_true, if_false, Prod.mk.injEq] at hrep
        exact absurd hrep.1.symm hk
      | false =>
        simp only [hone, Search.keep, loraCrcBruteforceCorrect2bit_eq hlen hcrc,
          Bool.false_eq_true, if_false] at hrep
        cases hpair : firstPairFix bytes with
        | none =>
          simp only [hpair, Bool.false_eq_true, if_false, Prod.mk.injEq] at hrep
          exact absurd hrep.1.symm hk
        | some ij =>
          simp only [hpair, if_true, Prod.mk.injEq] at hrep
          obtain ⟨rfl, rfl⟩ := hrep
          exact settledFix_of_firstPairFix hlen hcrc hone hpair
  constructor
  · rintro ⟨hrep, hk⟩
    exact hsound hrep hk
  · intro h
    -- something is found, and what is found is settled, hence the same
    have hne : (repair true true bytes).1 ≠ 0 := by
      cases h with
      | one hlen hi hmatch =>
        rw [repair, (loraCrcBruteforceCorrect_iff hlen).mpr ⟨_, hi, hmatch⟩]
        simp
      | two hlen hfail _ hpair =>
        exact (repair_ne_zero_iff hlen hfail).mpr ⟨rfl, Or.inr ⟨rfl, _, _, hpair⟩⟩
    obtain ⟨hkk, hff⟩ := (hsound rfl hne).unique h
    exact ⟨Prod.ext hkk hff, by rw [← hkk]; exact hne⟩

end MeshcoreSniffer.Lora
