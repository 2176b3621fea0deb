import MeshcoreSniffer.Pipeline.CrcRecover

/-!
# Live and retroactive recovery compared

A frame that fails its CRC is searched live, as payload with its trailer (`liveFixes_iff`), and
later by the recovery scan in what the row kept (`scanFixes_iff`), where the trailer is missing and
the last two bytes of the payload stand in its place. The two agree on frames that no one or two
flips repair in either reading (`scan_agrees_of_unrepairable`), and hardly on any other.
-/

namespace MeshcoreSniffer.Pipeline

open Lib Lora Meshcore List Option

/-! ## The live way -/

def frameOf (d : Decoder) (bytes : List Byte) : Frame where
  payload := some (checkCrc d bytes).2
  payloadLen := d.payloadLen
  frameMeta := { (checkCrc d bytes).1 with snrDb := d.meanSnrDb }

def bothSearches (d : Decoder) : Decoder :=
  { d with crcBruteforce := true, crcBruteforce2bit := true }

/-- A receive buffer whose CRC failed: payload and trailer behind it. -/
structure FailedReceive (d : Decoder) (payload trailer : List Byte) : Prop where
  sf_pos : 0 < d.frameMeta.sf
  has_crc : d.payloadHasCrc = true
  meta_crc : d.frameMeta.hasCrc = true
  len : d.payloadLen = payload.length
  two_le : 2 ≤ payload.length
  le_254 : payload.length ≤ 254
  trailer_len : trailer.length = 2
  fails : crcMatches (payload ++ trailer) = false

/-- `k` flips are reported, the callback gets `out`, and it is published as corrected. -/
def LiveFixes (env : Env) (channels : ChannelSet) (d : Decoder) (payload trailer : List Byte)
    (user : Int) (tNs : Nat) (k : Nat) (out : List Byte) : Prop :=
  let f := frameOf (bothSearches d) (payload ++ trailer)
  k ≠ 0 ∧ f.frameMeta.crcCorrectedBits = k ∧ f.delivered = some out ∧
    ∃ ev, handleCall env (some channels) (decodeCall out f.frameMeta user tNs) = some ev ∧
      ev.crcCorrected = true

/-- The retroactive way: the row is rewritten as a `k`-bit fix with packet `out`. -/
def ScanFixes (env : Env) (channels : ChannelSet) (row : EventRow) (k : Nat) (out : List Byte) :
    Prop :=
  ∃ ev, scanRow env channels row = .fixed k out ev

/-- A packet that decodes, and is authenticated where a `k`-bit fix has to be. -/
def Acceptable (env : Env) (channels : ChannelSet) (radio : Radio) (k : Nat) (out : List Byte) :
    Prop :=
  ∃ ev, meshcorePacketDecodeWithRadio env (some channels) radio out = some ev ∧
    ((2 ≤ k ∨ k = 1 ∧ authable ev.mcPayloadType = true) → meshEventCrc2bitTrusted ev = true)

/-! ## The scan in words -/

theorem scanSearch_eq_repair (frame : List Byte) : scanSearch frame = repair true true frame := by
  unfold scanSearch repair
  cases hone : (loraCrcBruteforceCorrect frame).1 with
  | true => simp [hone]
  | false => simp [hone, loraCrcBruteforceCorrect_false hone]

theorem scanFixes_iff {env : Env} {channels : ChannelSet} {row : EventRow} {stored : List Byte}
    (hraw : crcFailRawHex row = some (hexDump stored 513)) (hlen : stored.length ≤ 256) (k : Nat)
    (out : List Byte) :
    ScanFixes env channels row k out ↔
      SettledFix stored k out ∧ Acceptable env channels row.radio k out := by
  rw [← repair_iff_settledFix, ← scanSearch_eq_repair]
  unfold ScanFixes scanRow
  simp only [hraw, hexDecode_hexDump hlen]
  constructor
  · rintro ⟨ev, hscan⟩
    split at hscan
    next => cases hscan
    next =>
      split at hscan
      next => cases hscan
      next hne =>
        split at hscan
        next => cases hscan
        next ev' hdecode =>
          split at hscan
          next htrust =>
            cases hscan
            exact ⟨⟨rfl, hne⟩, ev', hdecode, (scanTrusted_iff ev' _).mp htrust⟩
          next => cases hscan
  · rintro ⟨⟨hsearch, hk⟩, ev, hdecode, htrust⟩
    have hlong : ¬stored.length < 4 := by
      intro hshort
      rw [scanSearch_eq_repair] at hsearch
      have hfix := (repair_iff_settledFix stored k out).mp ⟨hsearch, hk⟩
      cases hfix <;> omega
    refine ⟨recoveredEvent ev k, ?_⟩
    rw [if_neg hlong, hsearch, if_neg hk]
    simp only [hdecode]
    rw [if_pos ((scanTrusted_iff ev k).mpr htrust)]

/-! ## Live recovery in words -/

theorem repair_append (one two : Bool) (payload : List Byte) {trailer : List Byte}
    (htrailer : trailer.length = 2) :
    ∃ out, (repair one two (payload ++ trailer)).2 = out ++ trailer ∧
      out.length = payload.length := by
  have hbound : ∀ bit, bit < 8 * ((payload ++ trailer).length - 2) → bit < 8 * payload.length := by
    intro bit hbit
    rwa [length_append, htrailer, Nat.add_sub_cancel] at hbit
  rcases repair_cases one two (payload ++ trailer) with
    hnone | ⟨bit, hbit, -, hone⟩ | ⟨i, j, hi, hj, -, -, htwo⟩
  · exact ⟨payload, by rw [hnone], rfl⟩
  · refine ⟨flipBit payload bit, ?_, length_flipBit _ _⟩
    rw [hone, flipBit_append_left _ _ _ (hbound bit hbit)]
  · refine ⟨flipBit (flipBit payload i) j, ?_, by simp⟩
    have hj' : j < 8 * (flipBit payload i).length := by simpa using hbound j hj
    rw [htwo, flipBit_append_left _ _ _ (hbound i hi), flipBit_append_left _ _ _ hj']

section Compare

variable {env : Env} {channels : ChannelSet} {d : Decoder} {payload trailer : List Byte}

def frameRadio (d : Decoder) : Radio :=
  ⟨d.meanSnrDb, d.frameMeta.sf, d.frameMeta.cr, d.frameMeta.bwHz⟩

theorem FailedReceive.frameOf_eq (hr : FailedReceive d payload trailer) :
    frameOf d (payload ++ trailer) =
      let fixed := repair d.crcBruteforce d.crcBruteforce2bit (payload ++ trailer)
      { payload := some fixed.2
        payloadLen := payload.length
        frameMeta :=
          { d.frameMeta with
            payloadCrcOk := fixed.1 != 0
            crcCorrected := fixed.1 != 0
            crcCorrectedBits := fixed.1
            snrDb := d.meanSnrDb } } := by
  have hlen : 4 ≤ (payload ++ trailer).length := by
    have := hr.two_le
    rw [length_append, hr.trailer_len]
    omega
  rw [frameOf, checkCrc_fail hr.has_crc hlen hr.fails, hr.len]

theorem FailedReceive.bothSearches (hr : FailedReceive d payload trailer) :
    FailedReceive (bothSearches d) payload trailer :=
  { hr with }

theorem handleCall_corrected_iff {out : List Byte} {m : FrameMeta} {user : Int} {tNs : Nat}
    (hok : m.payloadCrcOk = true) (hcor : m.crcCorrected = true) :
    (∃ ev, handleCall env (some channels) (decodeCall out m user tNs) = some ev ∧
        ev.crcCorrected = true) ↔
      Acceptable env channels ⟨m.snrDb, m.sf, m.cr, m.bwHz⟩ m.crcCorrectedBits out := by
  have hgate : ∀ ev, meshcorePacketDecodeWithRadio env (some channels)
      ⟨m.snrDb, m.sf, m.cr, m.bwHz⟩ out = some ev →
      ((onMeshEvent ev (some (decodeCall out m user tNs).ctx)).crcCorrected = true ↔
        ((2 ≤ m.crcCorrectedBits ∨ m.crcCorrectedBits = 1 ∧ authable ev.mcPayloadType = true) →
          meshEventCrc2bitTrusted ev = true)) := by
    intro ev hdecode
    obtain ⟨pkt, hparse⟩ := exists_parse_of_decode hdecode
    have hproto : ev.isMeshcore = true := congrArg (·.isMeshcore) (frameFields_decode hparse hdecode)
    exact onMeshEvent_corrected_iff hproto hok hcor
  constructor
  · rintro ⟨pub, hcall, hpub⟩
    obtain ⟨ev, hdecode, rfl⟩ := map_eq_some_iff.mp hcall
    exact ⟨ev, hdecode, (hgate ev hdecode).mp hpub⟩
  · rintro ⟨ev, hdecode, htrust⟩
    exact ⟨_, map_eq_some_iff.mpr ⟨ev, hdecode, rfl⟩, (hgate ev hdecode).mpr htrust⟩

theorem liveFixes_iff (hr : FailedReceive d payload trailer) (user : Int) (tNs k : Nat)
    (out : List Byte) :
    LiveFixes env channels d payload trailer user tNs k out ↔
      SettledFix (payload ++ trailer) k (out ++ trailer) ∧
        Acceptable env channels (frameRadio d) k out := by
  obtain ⟨fixed, hfixed, hlen⟩ := repair_append true true payload hr.trailer_len
  have hframe := hr.bothSearches.frameOf_eq
  have hdelivered : (frameOf (Pipeline.bothSearches d) (payload ++ trailer)).delivered = some fixed := by
    rw [hframe]
    simp [Frame.delivered, Pipeline.bothSearches, hfixed, ← hlen]
  have hbits : (frameOf (Pipeline.bothSearches d) (payload ++ trailer)).frameMeta.crcCorrectedBits =
      (repair true true (payload ++ trailer)).1 := by rw [hframe]; rfl
  rw [← repair_iff_settledFix]
  unfold LiveFixes
  dsimp only
  rw [hdelivered, hbits]
  constructor
  · rintro ⟨hk, rfl, hout, hpub⟩
    cases hout
    have hne : ((repair true true (payload ++ trailer)).1 != 0) = true := by simpa using hk
    rw [hframe] at hpub
    refine ⟨⟨Prod.ext rfl hfixed, hk⟩, ?_⟩
    exact (handleCall_corrected_iff hne hne).mp hpub
  · rintro ⟨⟨hrep, hk⟩, hacc⟩
    rw [hrep] at hfixed
    have hout : out = fixed := append_cancel_right hfixed
    subst hout
    refine ⟨hk, by rw [hrep], rfl, ?_⟩
    have hne : ((repair true true (payload ++ trailer)).1 != 0) = true := by
      rw [hrep]
      simpa using hk
    rw [hframe]
    refine (handleCall_corrected_iff hne hne).mpr ?_
    have hreported : (repair true true (payload ++ trailer)).1 = k := by rw [hrep]
    rw [← hreported] at hacc
    exact hacc

/-! ## The row of a failed frame -/

theorem FailedReceive.length_delivered (hr : FailedReceive d payload trailer) {stored : List Byte}
    (hstored : (frameOf d (payload ++ trailer)).delivered = some stored) :
    stored.length = payload.length := by
  obtain ⟨out, hout, hlen⟩ :=
    repair_append d.crcBruteforce d.crcBruteforce2bit payload hr.trailer_len
  rw [hr.frameOf_eq] at hstored
  simp only [Frame.delivered, hout, bind_some, length_append, ← hlen,
    Nat.le_add_right, if_true, take_left, some.injEq] at hstored
  rw [← hstored, hlen]

theorem FailedReceive.row (hr : FailedReceive d payload trailer) {stored : List Byte}
    (hstored : (frameOf d (payload ++ trailer)).delivered = some stored)
    {channels₀ : Option ChannelSet} {user : Int} {tNs : Nat} {ev₀ : MeshEvent}
    (hcapture : handleCall env channels₀
      (decodeCall stored (frameOf d (payload ++ trailer)).frameMeta user tNs) = some ev₀)
    (hbad : ev₀.payloadCrcOk = false) :
    crcFailRawHex (dbSqlitePublish ev₀) = some (hexDump stored 513) ∧
      (dbSqlitePublish ev₀).radio = frameRadio d := by
  have hlen := hr.length_delivered hstored
  have hle := hr.le_254
  have hlo := hr.two_le
  obtain ⟨ev, hdecode, hpub⟩ := map_eq_some_iff.mp hcapture
  obtain ⟨pkt, hparse⟩ := exists_parse_of_decode hdecode
  have hframe := hr.frameOf_eq
  have htake : stored.take 256 = stored := take_of_length_le (by omega)
  have hid : ev₀.frameId = ⟨true, pkt.payloadType, hexDump stored 513, frameRadio d⟩ := by
    rw [← hpub, onMeshEvent_frameId]
    refine (congrArg (·.toFrameId) (frameFields_decode hparse hdecode)).trans ?_
    dsimp only [decodeCall]
    rw [htake, hframe]
    rfl
  have hcrc : ev₀.hasCrc = true := by
    rw [← hpub, onMeshEvent_hasCrc, hframe]
    exact hr.meta_crc
  -- some hex text was written
  have hne : hexDump stored 513 ≠ [] := by
    intro hnil
    have hread : hexDecode (hexDump stored 513) 256 = some stored := hexDecode_hexDump (by omega)
    rw [hnil] at hread
    cases hread
    rw [length_nil] at hlen
    omega
  exact row_of_failed hid hcrc hbad hr.sf_pos hne

/-- No one and no two flips before the last two bytes make these the CRC of the others. -/
def Unrepairable (bytes : List Byte) : Prop :=
  (∀ i < 8 * (bytes.length - 2), crcMatches (flipBit bytes i) = false) ∧
    ∀ i < 8 * (bytes.length - 2), ∀ j < 8 * (bytes.length - 2), i ≠ j →
      crcMatches (flipBit (flipBit bytes i) j) = false

instance (bytes : List Byte) : Decidable (Unrepairable bytes) := inferInstanceAs (Decidable (_ ∧ _))

theorem Unrepairable.not_settledFix {bytes fixed : List Byte} {k : Nat} (h : Unrepairable bytes) :
    ¬SettledFix bytes k fixed := by
  intro hfix
  cases hfix with
  | @one i hlen hi hmatch =>
    rw [h.1 i hi] at hmatch
    cases hmatch
  | @two i j hlen hfail hnone hpair =>
    obtain ⟨hi, hj, hne, hmatch⟩ := hpair
    rw [h.2 i hi j hj hne] at hmatch
    cases hmatch

/-- **Retroactive against live recovery.** The scan rewrites a failed row as a `k`-bit fix to the
same packet exactly when live recovery publishes that fix, if neither payload and trailer nor the
stored bytes, with their own last two as trailer, are repaired by one or two flips. Where only one
of the two readings can be repaired, they agree if and only if its fix is not acceptable. -/
theorem scan_agrees_of_unrepairable (hr : FailedReceive d payload trailer) {stored : List Byte}
    (hstored : (frameOf d (payload ++ trailer)).delivered = some stored)
    {channels₀ : Option ChannelSet} {user : Int} {tNs : Nat} {ev₀ : MeshEvent}
    (hcapture : handleCall env channels₀
      (decodeCall stored (frameOf d (payload ++ trailer)).frameMeta user tNs) = some ev₀)
    (hbad : ev₀.payloadCrcOk = false) :
    let Agree := ∀ k out, ScanFixes env channels (dbSqlitePublish ev₀) k out ↔
      LiveFixes env channels d payload trailer user tNs k out
    (Unrepairable stored → Unrepairable (payload ++ trailer) → Agree) ∧
      (Unrepairable stored → (Agree ↔ ∀ k out, SettledFix (payload ++ trailer) k (out ++ trailer) →
        ¬Acceptable env channels (frameRadio d) k out)) ∧
      (Unrepairable (payload ++ trailer) → (Agree ↔ ∀ k out, SettledFix stored k out →
        ¬Acceptable env channels (frameRadio d) k out)) := by
  intro Agree
  obtain ⟨hraw, hradio⟩ := hr.row hstored hcapture hbad
  have hlen : stored.length ≤ 256 := by
    have := hr.le_254
    rw [hr.length_delivered hstored]
    omega
  have hagree : Agree ↔ ∀ k out,
      SettledFix stored k out ∧ Acceptable env channels (frameRadio d) k out ↔
        SettledFix (payload ++ trailer) k (out ++ trailer) ∧
          Acceptable env channels (frameRadio d) k out := by
    simp only [Agree, scanFixes_iff hraw hlen, hradio, liveFixes_iff hr]
  rw [hagree]
  refine ⟨fun hrow hlive k out => ?_, fun hrow => ?_, fun hlive => ?_⟩
  · simp only [hrow.not_settledFix, hlive.not_settledFix, false_and]
  · simp only [hrow.not_settledFix, false_and, false_iff, not_and]
  · simp only [hlive.not_settledFix, false_and, iff_false, not_and]

end Compare

/-! ## A frame that only live recovery can fix -/

def silentEnv : Env where
  crypto :=
    { hmacSha256 := fun _ _ => [0, 0]
      aes128Decrypt := fun _ block => block
      ed25519Verify := fun _ _ _ => false
      two_le_hmac := fun _ _ => by simp
      length_aes := fun _ _ h => h }
  regionResolveFast := fun _ _ _ => none
  lppDecode := fun _ => none

def noChannels : ChannelSet where
  entries := []
  length_le := by decide

theorem not_acceptable_two (radio : Radio) (out : List Byte) :
    ¬Acceptable silentEnv noChannels radio 2 out := by
  rintro ⟨ev, hdecode, htrust⟩
  obtain ⟨pkt, hparse⟩ := exists_parse_of_decode hdecode
  rcases authenticated_of_trusted hparse hdecode (htrust (Or.inl le_rfl)) with
    ⟨-, cs, hcs, ch, hmem, -⟩ | ⟨-, hsigned⟩
  · cases hcs
    cases hmem
  · rw [advertSigned, meshcoreAdvertVerifySignature] at hsigned
    split at hsigned <;> cases hsigned

theorem not_settledFix_acceptable {bytes : List Byte}
    (hone : (loraCrcBruteforceCorrect bytes).1 = false) (radio : Radio) (k : Nat)
    (fixed out : List Byte) :
    ¬(SettledFix bytes k fixed ∧ Acceptable silentEnv noChannels radio k out) := by
  rintro ⟨hfix, hacc⟩
  cases hfix with
  | one hlen hi hmatch =>
    rw [(loraCrcBruteforceCorrect_iff hlen).mpr ⟨_, hi, hmatch⟩] at hone
    cases hone
  | two => exact not_acceptable_two radio out hacc

def txtMsg : List Byte :=
  [0x09, 0x00, 0xD1, 0x52, 0xA0, 0xB0, 0x01, 0x02, 0x03, 0x04, 0x05, 0x06, 0x07, 0x08]

def garbledTxtMsg : List Byte :=
  [0x09, 0x00, 0xD1, 0x52, 0xA0, 0xB1, 0x01, 0x02, 0x03, 0x04, 0x05, 0x06, 0x07, 0x08]

def captureDecoder (payload : List Byte) : Decoder where
  sf := 8
  cr := 1
  bwHz := 62500
  osFactor := 1
  softDecoding := false
  crcBruteforce := false
  payloadHasCrc := true
  payloadLen := payload.length
  frameMeta := { sf := 8, cr := 1, bwHz := 62500, payloadLen := payload.length, hasCrc := true }

def capturedEvent (payload trailer : List Byte) : Option MeshEvent :=
  handleCall silentEnv none
    (decodeCall payload (frameOf (captureDecoder payload) (payload ++ trailer)).frameMeta 3 0)

def rawCustom : List Byte := [0x3D, 0x00, 0x01, 0x02]

theorem scan_agrees_of_unrepairable_rawCustom :
    ∃ ev₀, capturedEvent rawCustom [0x00, 0x00] = some ev₀ ∧
      ∀ k out, ScanFixes silentEnv noChannels (dbSqlitePublish ev₀) k out ↔
        LiveFixes silentEnv noChannels (captureDecoder rawCustom) rawCustom [0x00, 0x00] 3 0 k out := by
  have hr : FailedReceive (captureDecoder rawCustom) rawCustom [0x00, 0x00] :=
    ⟨by decide, rfl, rfl, rfl, by decide, by decide, rfl, by decide +kernel⟩
  have hstored : (frameOf (captureDecoder rawCustom) (rawCustom ++ [0x00, 0x00])).delivered =
      some rawCustom := by decide +kernel
  have hpub : (capturedEvent rawCustom [0x00, 0x00]).map (·.payloadCrcOk) = some false := by
    decide +kernel
  obtain ⟨ev₀, hcapture, hbad⟩ := map_eq_some_iff.mp hpub
  refine ⟨ev₀, hcapture, (scan_agrees_of_unrepairable hr hstored hcapture hbad).1 ?_ ?_⟩
  · decide +kernel
  · decide +kernel

/-- Live recovery restores the message with one flip, the scan leaves its row as it was. -/
theorem live_fix_not_rescanned :
    FailedReceive (captureDecoder garbledTxtMsg) garbledTxtMsg (trailerBytes (payloadCrc txtMsg)) ∧
      LiveFixes silentEnv noChannels (captureDecoder garbledTxtMsg) garbledTxtMsg
        (trailerBytes (payloadCrc txtMsg)) 3 0 1 txtMsg ∧
      ∃ ev₀, capturedEvent garbledTxtMsg (trailerBytes (payloadCrc txtMsg)) = some ev₀ ∧
        ev₀.payloadCrcOk = false ∧
        ∀ k out, ¬ScanFixes silentEnv noChannels (dbSqlitePublish ev₀) k out := by
  have hr : FailedReceive (captureDecoder garbledTxtMsg) garbledTxtMsg (trailerBytes (payloadCrc txtMsg)) :=
    ⟨by decide, rfl, rfl, rfl, by decide, by decide, rfl, by decide +kernel⟩
  have hstored : (frameOf (captureDecoder garbledTxtMsg)
      (garbledTxtMsg ++ trailerBytes (payloadCrc txtMsg))).delivered = some garbledTxtMsg := by
    decide +kernel
  have hpub : (capturedEvent garbledTxtMsg (trailerBytes (payloadCrc txtMsg))).map (·.payloadCrcOk) = some false := by
    decide +kernel
  obtain ⟨ev₀, hcapture, hbad⟩ := map_eq_some_iff.mp hpub
  obtain ⟨hraw, -⟩ := hr.row hstored hcapture hbad
  refine ⟨hr, ⟨by decide, by decide +kernel, by decide +kernel, ?_⟩, ev₀, hcapture, hbad, ?_⟩
  · have hlive : (handleCall silentEnv (some noChannels) (decodeCall txtMsg
        (frameOf (bothSearches (captureDecoder garbledTxtMsg))
          (garbledTxtMsg ++ trailerBytes (payloadCrc txtMsg))).frameMeta 3 0)).map
        (·.crcCorrected) = some true := by decide +kernel
    exact map_eq_some_iff.mp hlive
  · intro k out hscan
    rw [scanFixes_iff hraw (by decide)] at hscan
    exact not_settledFix_acceptable (by decide +kernel) _ k out out hscan

end MeshcoreSniffer.Pipeline
