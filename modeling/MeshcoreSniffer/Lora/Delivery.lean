import MeshcoreSniffer.Lora.Roundtrip

/-!
# What the frame callback is told

The payload that was sent and a passed checksum, except in three corners: behind 255 bytes the
second checksum byte does not fit, one byte with a checksum is reported as failed, and a payload
without checksum inside the header block is a null pointer.
-/

namespace MeshcoreSniffer.Lora

open Lib List

/-! ## The check in closed form -/

variable {d : Decoder} {bytes : List Byte}

theorem checkCrc_unchecked (h : d.payloadHasCrc = false ∨ bytes.length < 4) :
    checkCrc d bytes = ({ d.frameMeta with payloadCrcOk := !d.payloadHasCrc }, bytes) := by
  unfold checkCrc
  rw [if_neg]
  simp only [Bool.and_eq_true, decide_eq_true_eq, not_and, not_le]
  intro hcrc
  rcases h with hno | hshort
  · rw [hcrc] at hno
    cases hno
  · exact hshort

theorem checkCrc_match (hcrc : d.payloadHasCrc = true) (hlen : 4 ≤ bytes.length)
    (hmatch : crcMatches bytes = true) : checkCrc d bytes =
      ({ d.frameMeta with payloadCrcOk := true, crcCorrected := false, crcCorrectedBits := 0 },
        bytes) := by
  simp [checkCrc, hcrc, hlen, hmatch]

theorem checkCrc_fail (hcrc : d.payloadHasCrc = true) (hlen : 4 ≤ bytes.length)
    (hfail : crcMatches bytes = false) : checkCrc d bytes =
      let fixed := repair d.crcBruteforce d.crcBruteforce2bit bytes
      ({ d.frameMeta with
          payloadCrcOk := fixed.1 != 0, crcCorrected := fixed.1 != 0, crcCorrectedBits := fixed.1 },
        fixed.2) := by
  have hone : (loraCrcBruteforceCorrect bytes).1 = false →
      (loraCrcBruteforceCorrect bytes).2 = bytes := loraCrcBruteforceCorrect_false
  unfold checkCrc repair
  cases h1 : (loraCrcBruteforceCorrect bytes).1 with
  | true => cases d.crcBruteforce <;> simp [hcrc, hlen, hfail, h1]
  | false =>
    simp only [hcrc, hlen, hfail, h1, hone h1]
    cases d.crcBruteforce <;> cases d.crcBruteforce2bit <;>
      cases (loraCrcBruteforceCorrect2bit bytes).1 <;> simp

/-! ## The frame of an error-free transmission -/

namespace TxFrame

variable (tx : TxFrame)

def cutFrame : List Byte := tx.payload ++ [(payloadCrc tx.payload).setWidth 8]

theorem cutFrame_length (h : tx.payload.length = 255) : tx.cutFrame.length = 256 := by
  simp [cutFrame, h]

theorem crcMatches_wire (h : 2 ≤ tx.payload.length) :
    crcMatches (tx.payload ++ trailerBytes (payloadCrc tx.payload)) = true := by
  rw [trailerBytes, crcMatches_frame tx.payload _ _ h, trailerWord_trailerBytes]

end TxFrame

variable {tx : TxFrame} {d d' : Decoder}

theorem PayloadAt.frameBytes_crc (h : PayloadAt d tx tx.payloadSymbols d') (hsf : d.sf = tx.sf)
    (hcrc : tx.hasCrc = true) :
    (tx.payload.length ≤ 254 →
      d'.frameBytes = tx.payload ++ trailerBytes (payloadCrc tx.payload)) ∧
    (tx.payload.length = 255 → d'.frameBytes = tx.cutFrame) := by
  have hne := tx.payloadSymbols_ne_nil_of_crc hcrc
  have hframe := h.frameBytes_eq hsf hne
  rw [TxFrame.trailer, if_pos hcrc] at hframe
  have hmax : maxPayloadBytes = 256 := rfl
  constructor
  · intro hlen
    have hfits : (trailerBytes (payloadCrc tx.payload)).length ≤
        maxPayloadBytes - tx.payload.length := by
      simp only [trailerBytes, length_cons, length_nil]
      omega
    rw [hframe, take_of_length_le hfits]
  · intro hlen
    rw [hframe, hlen, hmax]
    rfl

def deliveredFrame (d : Decoder) : Frame :=
  { payload := some (checkCrc d d.frameBytes).2
    payloadLen := d.payloadLen
    frameMeta := { (checkCrc d d.frameBytes).1 with snrDb := d.meanSnrDb } }

theorem run_crc_frame (hcrc : tx.hasCrc = true) (hd : d.AtHeaderStart) (hsf : d.sf = tx.sf)
    (hldro : ldroOf d.sf d.bwHz = tx.ldro) {obs : List Obs}
    (hobs : obs.map Obs.sym = tx.headerBins ++ tx.payloadBins) :
    ∃ d', PayloadAt d tx tx.payloadSymbols d' ∧
      (Mealy.run stateTick d obs).2 = [.frame (deliveredFrame d')] :=
  (run_frame hd hsf hldro hobs).2 (tx.payloadSymbols_ne_nil_of_crc hcrc)

theorem exists_singleton_frame {events : List Event} {f₀ : Frame} (h : events = [.frame f₀])
    (P : Frame → Prop) : (∃ f, events = [.frame f] ∧ P f) ↔ P f₀ := by
  subst h
  constructor
  · rintro ⟨f, hf, hP⟩
    cases hf
    exact hP
  · exact fun hP => ⟨f₀, rfl, hP⟩

theorem delivered_deliveredFrame (h : PayloadAt d tx tx.payloadSymbols d') {buf : List Byte}
    (hbuf : (checkCrc d' d'.frameBytes).2 = buf) (hlen : tx.payload.length ≤ buf.length) :
    (deliveredFrame d').delivered = some (buf.take tx.payload.length) := by
  simp [Frame.delivered, deliveredFrame, hbuf, h.len, hlen]

theorem delivered_crc_short (h : PayloadAt d tx tx.payloadSymbols d') (hsf : d.sf = tx.sf)
    (hcrc : tx.hasCrc = true) (hlen : tx.payload.length ≤ 254) :
    (deliveredFrame d').delivered = some tx.payload := by
  have hframe := (h.frameBytes_crc hsf hcrc).1 hlen
  have hbuf : (checkCrc d' d'.frameBytes).2 = tx.payload ++ trailerBytes (payloadCrc tx.payload) := by
    rw [hframe]
    by_cases htwo : 2 ≤ tx.payload.length
    · rw [checkCrc_match (by rw [h.crc, hcrc]) (by simp [trailerBytes]; omega)
        (tx.crcMatches_wire htwo)]
    · rw [checkCrc_unchecked (Or.inr (by simp [trailerBytes]; omega))]
  rw [delivered_deliveredFrame h hbuf (by simp), take_left' rfl]

theorem delivered_crc_full (h : PayloadAt d tx tx.payloadSymbols d') (hsf : d.sf = tx.sf)
    (hcrc : tx.hasCrc = true) (hlen : tx.payload.length = 255) :
    (deliveredFrame d').delivered = some tx.payload ↔
      crcMatches tx.cutFrame = true ∨
        ¬ Repairable d.crcBruteforce d.crcBruteforce2bit tx.cutFrame := by
  have hframe := (h.frameBytes_crc hsf hcrc).2 hlen
  have hcut := tx.cutFrame_length hlen
  cases hmatch : crcMatches tx.cutFrame with
  | true =>
    have hbuf : (checkCrc d' d'.frameBytes).2 = tx.cutFrame := by
      rw [hframe, checkCrc_match (by rw [h.crc, hcrc]) (by omega) hmatch]
    rw [delivered_deliveredFrame h hbuf (by omega)]
    simp [TxFrame.cutFrame]
  | false =>
    have hbuf : (checkCrc d' d'.frameBytes).2 =
        (repair d.crcBruteforce d.crcBruteforce2bit tx.cutFrame).2 := by
      rw [hframe, checkCrc_fail (by rw [h.crc, hcrc]) (by omega) hmatch, h.one, h.two]
    rw [← repair_ne_zero_iff (by omega) hmatch]
    -- a flip of the cut frame below its last two bytes is a flip of the payload
    have hflip : ∀ bit < 8 * (tx.cutFrame.length - 2), ∀ p : List Byte, p.length = 255 →
        flipBit (p ++ [(payloadCrc tx.payload).setWidth 8]) bit =
          flipBit p bit ++ [(payloadCrc tx.payload).setWidth 8] := by
      intro bit hbit p hp
      exact flipBit_append_left p _ bit (by omega)
    rcases repair_cases d.crcBruteforce d.crcBruteforce2bit tx.cutFrame with
      hnone | ⟨bit, hbit, -, hone⟩ | ⟨i, j, hi, hj, hne, -, htwo⟩
    · rw [hnone] at hbuf ⊢
      rw [delivered_deliveredFrame h hbuf (by dsimp only; omega)]
      simp [TxFrame.cutFrame]
    · have hpay : bit < 8 * tx.payload.length := by omega
      rw [hone, TxFrame.cutFrame, hflip bit hbit _ hlen] at hbuf
      rw [delivered_deliveredFrame h hbuf (by simp), take_left' (by simp), hone]
      simpa using flipBit_ne tx.payload hpay
    · have hpi : i < 8 * tx.payload.length := by omega
      have hpj : j < 8 * tx.payload.length := by omega
      rw [htwo, TxFrame.cutFrame, hflip i hi _ hlen,
        hflip j hj _ (by rw [length_flipBit, hlen])] at hbuf
      rw [delivered_deliveredFrame h hbuf (by simp), take_left' (by simp), htwo]
      simpa using flipBit_flipBit_ne tx.payload hpi hpj hne

theorem verdict_crc (h : PayloadAt d tx tx.payloadSymbols d') (hsf : d.sf = tx.sf)
    (hcrc : tx.hasCrc = true) :
    ((deliveredFrame d').frameMeta.payloadCrcOk = true ∧
        (deliveredFrame d').frameMeta.crcCorrected = false) ↔
      (2 ≤ tx.payload.length ∧ tx.payload.length ≤ 254) ∨
        (tx.payload.length = 255 ∧ crcMatches tx.cutFrame = true) := by
  have hlo := tx.len_lo
  have hhi := tx.len_hi
  have hcrc' : d'.payloadHasCrc = true := by rw [h.crc, hcrc]
  obtain ⟨hshort, hfull⟩ := h.frameBytes_crc hsf hcrc
  show ((checkCrc d' d'.frameBytes).1.payloadCrcOk = true ∧
    (checkCrc d' d'.frameBytes).1.crcCorrected = false) ↔ _
  by_cases hone : tx.payload.length = 1
  · -- three bytes: below the guard
    rw [hshort (by omega), checkCrc_unchecked (Or.inr (by simp [trailerBytes, hone]))]
    simp [hcrc', hone]
  · by_cases hcap : tx.payload.length = 255
    · have hcut := tx.cutFrame_length hcap
      rw [hfull hcap]
      cases hmatch : crcMatches tx.cutFrame with
      | true => simp [checkCrc_match hcrc' (by omega) hmatch, hcap]
      | false =>
        rw [checkCrc_fail hcrc' (by omega) hmatch]
        simp [hcap]
    · have hmatch := tx.crcMatches_wire (by omega)
      rw [hshort (by omega), checkCrc_match hcrc' (by simp [trailerBytes]; omega) hmatch]
      simp only [true_and, true_iff]
      exact Or.inl ⟨by omega, by omega⟩

/-! ## A locked decoder -/

def clearObs (sym : Nat) : Obs :=
  { sym := sym, peak := 10, noise := 1, snrDb := 20, trimInput := 0, sfoShift := 0, llrs := [] }

def lockTicks : List Obs := List.replicate 6 (clearObs 0) ++ [clearObs 8, clearObs 0, clearObs 0]

def lockedDecoder (sf : Nat) : Decoder :=
  (Mealy.run Decoder.step
    { sf := sf, cr := 5, bwHz := 125000, osFactor := 1, softDecoding := false
      frameMeta := { sf := sf, cr := 5, bwHz := 125000 } }
    (lockTicks.map .tick)).1

theorem lockedDecoder_reached {sf : Nat} (hlo : 7 ≤ sf) (hhi : sf ≤ 12) :
    (lockedDecoder sf).Reached := by
  refine ⟨_, lockTicks.map .tick, ⟨sf, 5, 125000, 1, false, ?_⟩, rfl⟩
  unfold loraDecoderCreateOs
  rw [if_neg (by omega), if_neg (by omega)]

theorem lockedDecoder_atHeaderStart :
    (lockedDecoder 7).AtHeaderStart ∧ (lockedDecoder 9).AtHeaderStart :=
  ⟨(lockedDecoder_reached (by omega) (by omega)).atHeaderStart (by decide +kernel)
      (by decide +kernel) (by decide +kernel),
    (lockedDecoder_reached (by omega) (by omega)).atHeaderStart (by decide +kernel)
      (by decide +kernel) (by decide +kernel)⟩

theorem lockedDecoder_config {sf : Nat} (h : sf = 7 ∨ sf = 9) :
    (lockedDecoder sf).sf = sf ∧ ldroOf (lockedDecoder sf).sf (lockedDecoder sf).bwHz = false ∧
      (lockedDecoder sf).crcBruteforce = true ∧ (lockedDecoder sf).crcBruteforce2bit = false := by
  rcases h with rfl | rfl <;> decide +kernel

def TxFrame.clearObs (tx : TxFrame) : List Obs :=
  (tx.headerBins ++ tx.payloadBins).map Lora.clearObs

theorem TxFrame.clearObs_sym (tx : TxFrame) :
    tx.clearObs.map Obs.sym = tx.headerBins ++ tx.payloadBins := by
  rw [TxFrame.clearObs, map_map]
  exact map_id _

/-! ## The callback and the transmission -/

/-- **Decode after encode, with checksum.** The callback gets exactly the payload unless it has 255
bytes, the frame without its last checksum byte fails the check, and an enabled repair makes it
pass. -/
theorem receive_crc_payload (tx : TxFrame) (d : Decoder) (obs : List Obs)
    (hcrc : tx.hasCrc = true) (hd : d.AtHeaderStart) (hsf : d.sf = tx.sf)
    (hldro : ldroOf d.sf d.bwHz = tx.ldro)
    (hobs : obs.map Obs.sym = tx.headerBins ++ tx.payloadBins) :
    (payloadSymbolCount d.sf tx.ldro tx.hasCrc tx.payload.length tx.cr ≤ maxPayloadSymbols ∧
      tx.nibbles.length ≤ (tx.sf - 7) +
        payloadSymbolCount d.sf tx.ldro tx.hasCrc tx.payload.length tx.cr / tx.cr * tx.sfApp ∧
      ∃ f, (Mealy.run stateTick d obs).2 = [.frame f] ∧
        f.payloadLen = tx.payload.length ∧ f.delivered = some tx.payload) ↔
    (tx.payload.length ≤ 254 ∨ crcMatches tx.cutFrame = true ∨
      ¬ Repairable d.crcBruteforce d.crcBruteforce2bit tx.cutFrame) := by
  obtain ⟨d', hat, hevents⟩ := run_crc_frame hcrc hd hsf hldro hobs
  have htarget : payloadSymbolCount d.sf tx.ldro tx.hasCrc tx.payload.length tx.cr ≤
      maxPayloadSymbols := by
    rw [hsf, tx.payloadSymbolCount_eq]
    exact tx.length_payloadSymbols_le
  have hcover : tx.nibbles.length ≤ (tx.sf - 7) +
      payloadSymbolCount d.sf tx.ldro tx.hasCrc tx.payload.length tx.cr / tx.cr * tx.sfApp := by
    have hcr := tx.cr_lo
    rw [hsf, tx.payloadSymbolCount_eq, tx.length_payloadSymbols, Nat.mul_div_cancel _ (by omega)]
    have := le_blockCount_mul (tx.nibbles.length - (tx.sf - 7)) tx.sfApp_pos
    omega
  rw [and_iff_right htarget, and_iff_right hcover, exists_singleton_frame hevents,
    and_iff_right (show (deliveredFrame d').payloadLen = tx.payload.length from hat.len)]
  by_cases hlen : tx.payload.length ≤ 254
  · exact iff_of_true (delivered_crc_short hat hsf hcrc hlen) (Or.inl hlen)
  · have hhi := tx.len_hi
    rw [delivered_crc_full hat hsf hcrc (by omega), or_iff_right hlen]

theorem receive_crc_payload_two :
    let tx : TxFrame :=
      { sf := 7, cr := 5, ldro := false, hasCrc := true, payload := [0x01#8, 0x02#8]
        sf_lo := by decide, sf_hi := by decide, cr_lo := by decide, cr_hi := by decide
        len_lo := by decide, len_hi := by decide }
    ∃ f, (Mealy.run stateTick (lockedDecoder 7) tx.clearObs).2 = [.frame f] ∧
      f.payloadLen = 2 ∧ f.delivered = some [0x01#8, 0x02#8] :=
  ((receive_crc_payload _ (lockedDecoder 7) _ rfl lockedDecoder_atHeaderStart.1
    (lockedDecoder_config (.inl rfl)).1 (lockedDecoder_config (.inl rfl)).2.1 (TxFrame.clearObs_sym _)).mpr
    (Or.inl (by decide))).2.2

def zerosOneZero (n : Nat) : List Byte := List.replicate n 0x00#8 ++ [0x01#8, 0x00#8]

theorem length_zerosOneZero (n : Nat) : (zerosOneZero n).length = n + 2 := by
  simp [zerosOneZero]

theorem crcTarget_zerosOneZero {n : Nat} (hn : 0 < n) :
    crcTarget (zerosOneZero n ++ [(payloadCrc (zerosOneZero n)).setWidth 8]) = 1#16 := by
  have hcrc : payloadCrc (zerosOneZero n) = 0x0100#16 := by
    rw [zerosOneZero, payloadCrc_replicate_zero_append]
    decide +kernel
  have hcut : zerosOneZero n ++ [0x00#8] =
      (replicate n 0x00#8 ++ [0x01#8]) ++ [0x00#8, 0x00#8] := by
    simp [zerosOneZero]
  rw [hcrc, show (0x0100#16).setWidth 8 = 0x00#8 by decide, hcut, crcTarget, gotCrc_frame,
    wantCrc_frame _ _ _ (by simp; omega), payloadCrc_replicate_zero_append]
  decide

def longFrame : TxFrame :=
  { sf := 7, cr := 5, ldro := false, hasCrc := true, payload := zerosOneZero 253
    sf_lo := by decide, sf_hi := by decide, cr_lo := by decide, cr_hi := by decide
    len_lo := by rw [length_zerosOneZero]; decide
    len_hi := by rw [length_zerosOneZero] }

theorem longFrame_length : longFrame.payload.length = 255 := length_zerosOneZero 253

theorem longFrame_repairable :
    crcMatches longFrame.cutFrame = false ∧ Repairable true false longFrame.cutFrame := by
  have hlen := longFrame.cutFrame_length longFrame_length
  have htarget : crcTarget longFrame.cutFrame = 1#16 :=
    crcTarget_zerosOneZero (by omega)
  refine ⟨?_, rfl, Or.inl ⟨8 * 253, by omega, ?_⟩⟩
  · rw [← Bool.not_eq_true, crcMatches_iff_crcTarget, htarget]
    decide
  · rw [crcMatches_flipBit (by omega) (by omega), hlen, htarget]
    decide

/-- Received without error, the 255 bytes are not delivered: the single-bit
repair clears the bit that is set. -/
theorem receive_crc_payload_lost :
    ¬ ∃ f, (Mealy.run stateTick (lockedDecoder 7) longFrame.clearObs).2 = [.frame f] ∧
      f.payloadLen = longFrame.payload.length ∧ f.delivered = some longFrame.payload := by
  obtain ⟨hfail, hrep⟩ := longFrame_repairable
  obtain ⟨hsf, hldro, hone, htwo⟩ := lockedDecoder_config (.inl (rfl : 7 = 7))
  obtain ⟨d', hat, hevents⟩ := run_crc_frame rfl lockedDecoder_atHeaderStart.1 hsf hldro
    longFrame.clearObs_sym
  rintro ⟨f, hf, -, hdel⟩
  rw [hevents] at hf
  cases hf
  rw [delivered_crc_full hat hsf rfl longFrame_length] at hdel
  rw [hone, htwo, hfail] at hdel
  rcases hdel with hmatch | hnot
  · cases hmatch
  · exact hnot hrep

/-- **The verdict on an error-free frame with checksum.** Passed and uncorrected exactly from two to
254 bytes, and at 255 bytes when the frame without its last checksum byte happens to pass. -/
theorem receive_crc_verdict (tx : TxFrame) (d : Decoder) (obs : List Obs)
    (hcrc : tx.hasCrc = true) (hd : d.AtHeaderStart) (hsf : d.sf = tx.sf)
    (hldro : ldroOf d.sf d.bwHz = tx.ldro)
    (hobs : obs.map Obs.sym = tx.headerBins ++ tx.payloadBins) :
    (∃ f, (Mealy.run stateTick d obs).2 = [.frame f] ∧
        f.frameMeta.payloadCrcOk = true ∧ f.frameMeta.crcCorrected = false) ↔
      (2 ≤ tx.payload.length ∧ tx.payload.length ≤ 254) ∨
        (tx.payload.length = 255 ∧ crcMatches tx.cutFrame = true) := by
  obtain ⟨d', hat, hevents⟩ := run_crc_frame hcrc hd hsf hldro hobs
  rw [exists_singleton_frame hevents]
  exact verdict_crc hat hsf hcrc

theorem receive_crc_verdict_two :
    let tx : TxFrame :=
      { sf := 7, cr := 5, ldro := false, hasCrc := true, payload := [0x01#8, 0x02#8]
        sf_lo := by decide, sf_hi := by decide, cr_lo := by decide, cr_hi := by decide
        len_lo := by decide, len_hi := by decide }
    ∃ f, (Mealy.run stateTick (lockedDecoder 7) tx.clearObs).2 = [.frame f] ∧
      f.frameMeta.payloadCrcOk = true ∧ f.frameMeta.crcCorrected = false :=
  (receive_crc_verdict _ (lockedDecoder 7) _ rfl lockedDecoder_atHeaderStart.1
    (lockedDecoder_config (.inl rfl)).1 (lockedDecoder_config (.inl rfl)).2.1 (TxFrame.clearObs_sym _)).mpr
    (Or.inl ⟨by decide, by decide⟩)

def byteFrame : TxFrame :=
  { sf := 7, cr := 5, ldro := false, hasCrc := true, payload := [0x41#8]
    sf_lo := by decide, sf_hi := by decide, cr_lo := by decide, cr_hi := by decide
    len_lo := by decide, len_hi := by decide }

/-- Received without error, neither the one-byte frame nor the 255-byte frame is
reported as passed and uncorrected. -/
theorem receive_crc_verdict_wrong :
    (¬ ∃ f, (Mealy.run stateTick (lockedDecoder 7) byteFrame.clearObs).2 = [.frame f] ∧
      f.frameMeta.payloadCrcOk = true ∧ f.frameMeta.crcCorrected = false) ∧
    ¬ ∃ f, (Mealy.run stateTick (lockedDecoder 7) longFrame.clearObs).2 = [.frame f] ∧
      f.frameMeta.payloadCrcOk = true ∧ f.frameMeta.crcCorrected = false := by
  have hverdict : ∀ tx : TxFrame, tx.hasCrc = true → (lockedDecoder 7).sf = tx.sf →
      ldroOf (lockedDecoder 7).sf (lockedDecoder 7).bwHz = tx.ldro →
      ¬ ((2 ≤ tx.payload.length ∧ tx.payload.length ≤ 254) ∨
        (tx.payload.length = 255 ∧ crcMatches tx.cutFrame = true)) →
      ¬ ∃ f, (Mealy.run stateTick (lockedDecoder 7) tx.clearObs).2 = [.frame f] ∧
        f.frameMeta.payloadCrcOk = true ∧ f.frameMeta.crcCorrected = false := by
    intro tx hcrc hsf hldro hcorner
    obtain ⟨d', hat, hevents⟩ :=
      run_crc_frame hcrc lockedDecoder_atHeaderStart.1 hsf hldro tx.clearObs_sym
    rw [exists_singleton_frame hevents, verdict_crc hat hsf hcrc]
    exact hcorner
  obtain ⟨hsf, hldro, -, -⟩ := lockedDecoder_config (.inl (rfl : 7 = 7))
  refine ⟨hverdict byteFrame rfl hsf hldro (by decide), ?_⟩
  refine hverdict longFrame rfl hsf hldro ?_
  rw [longFrame_repairable.1, longFrame_length]
  decide

/-- **Decode after encode, without checksum.** The callback is invoked once, with the payload
exactly when some of it travelled behind the header block. -/
theorem receive_plain_payload (tx : TxFrame) (d : Decoder) (obs : List Obs)
    (hcrc : tx.hasCrc = false) (hd : d.AtHeaderStart) (hsf : d.sf = tx.sf)
    (hldro : ldroOf d.sf d.bwHz = tx.ldro)
    (hobs : obs.map Obs.sym = tx.headerBins ++ tx.payloadBins) :
    (∃ f, (Mealy.run stateTick d obs).2 = [.frame f] ∧
        f.payloadLen = tx.payload.length ∧ f.delivered = some tx.payload) ↔
      tx.sf < 2 * tx.payload.length + 7 := by
  have hlo := tx.sf_lo
  have hblock : tx.payloadSymbols = [] ↔ ¬ tx.sf < 2 * tx.payload.length + 7 := by
    rw [tx.payloadSymbols_eq_nil_iff, tx.length_nibbles, tx.length_wire, if_neg (by simp [hcrc])]
    omega
  obtain ⟨hempty, hfull⟩ := run_frame hd hsf hldro hobs
  by_cases hnil : tx.payloadSymbols = []
  · -- everything was in the header block: a null pointer is delivered
    obtain ⟨d', -, hevents⟩ := hempty hnil
    refine iff_of_false ?_ (hblock.mp hnil)
    rintro ⟨f, hf, -, hdel⟩
    rw [hevents] at hf
    cases hf
    simp [Frame.delivered] at hdel
  · obtain ⟨d', hat, hevents⟩ := hfull hnil
    refine iff_of_true ⟨deliveredFrame d', hevents, hat.len, ?_⟩ (not_not.mp (mt hblock.mpr hnil))
    have hbuf : (checkCrc d' d'.frameBytes).2 = tx.payload := by
      rw [checkCrc_unchecked (Or.inl (by rw [hat.crc, hcrc])), hat.frameBytes_eq hsf hnil,
        TxFrame.trailer, if_neg (by simp [hcrc])]
      simp
    rw [delivered_deliveredFrame hat hbuf le_rfl, take_length]

theorem receive_plain_payload_two :
    let tx : TxFrame :=
      { sf := 7, cr := 5, ldro := false, hasCrc := false, payload := [0x01#8, 0x02#8]
        sf_lo := by decide, sf_hi := by decide, cr_lo := by decide, cr_hi := by decide
        len_lo := by decide, len_hi := by decide }
    ∃ f, (Mealy.run stateTick (lockedDecoder 7) tx.clearObs).2 = [.frame f] ∧
      f.payloadLen = 2 ∧ f.delivered = some [0x01#8, 0x02#8] :=
  (receive_plain_payload _ (lockedDecoder 7) _ rfl lockedDecoder_atHeaderStart.1
    (lockedDecoder_config (.inl rfl)).1 (lockedDecoder_config (.inl rfl)).2.1 (TxFrame.clearObs_sym _)).mpr (by decide)

def headerOnlyFrame : TxFrame :=
  { sf := 9, cr := 5, ldro := false, hasCrc := false, payload := [0x41#8]
    sf_lo := by decide, sf_hi := by decide, cr_lo := by decide, cr_hi := by decide
    len_lo := by decide, len_hi := by decide }

/-- Received without error, the byte is not delivered. -/
theorem receive_plain_payload_lost :
    ¬ ∃ f, (Mealy.run stateTick (lockedDecoder 9) headerOnlyFrame.clearObs).2 = [.frame f] ∧
      f.payloadLen = headerOnlyFrame.payload.length ∧
      f.delivered = some headerOnlyFrame.payload := by
  have hnil : headerOnlyFrame.payloadSymbols = [] :=
    headerOnlyFrame.payloadSymbols_eq_nil_iff.mpr (by decide)
  obtain ⟨hsf, hldro, -, -⟩ := lockedDecoder_config (.inr (rfl : headerOnlyFrame.sf = 9))
  obtain ⟨d', -, hevents⟩ := (run_frame lockedDecoder_atHeaderStart.2 hsf hldro
    headerOnlyFrame.clearObs_sym).1 hnil
  rintro ⟨f, hf, -, hdel⟩
  rw [hevents] at hf
  cases hf
  simp [Frame.delivered] at hdel

end MeshcoreSniffer.Lora
