import MeshcoreSniffer.Lib.TextCodes
import MeshcoreSniffer.Lora.Delivery
import MeshcoreSniffer.Pipeline.Publish

/-!
# Retroactive CRC recovery

`crc_recover.c` runs the bit searches again over rows whose CRC failed. The raw bytes of a row are
the payload only, and the scan takes the last two of them for the trailer.
-/

namespace MeshcoreSniffer.Pipeline

open Lib Lora Meshcore

/-! ## Hex text -/

def hexDecode (hex : List Byte) (maxOut : Nat) : Option (List Byte) :=
  if hex.length % 2 ≠ 0 then none else hexPairs (min (hex.length / 2) maxOut) hex

theorem hexDigits_eq : hexDigits = ascii "0123456789abcdef" := by
  decide

theorem hexOf_flatMap_hexByte (bytes : List Byte) : HexOf bytes (bytes.flatMap hexByte) := by
  induction bytes with
  | nil => exact .nil
  | cons b bytes ih =>
    rw [List.flatMap_cons, hexByte, hexDigits_eq]
    exact .cons (Or.inl rfl) (Or.inl rfl) ih

theorem hexDecode_hexDump {bytes : List Byte} (hlen : bytes.length ≤ 256) :
    hexDecode (hexDump bytes 513) 256 = some bytes := by
  have hdump : hexDump bytes 513 = bytes.flatMap hexByte := by
    rw [hexDump, List.take_of_length_le (by simpa using hlen)]
  have heven : ¬2 * bytes.length % 2 ≠ 0 := by omega
  have hcount : min (2 * bytes.length / 2) 256 = bytes.length := by omega
  have hhex := hexOf_flatMap_hexByte bytes
  rw [hdump, hexDecode, hhex.length_eq, if_neg heven, hcount, hexPairs_of_hexOf hhex]

/-! ## Rows -/

structure EventRow where
  meshcore : Bool
  decrypted : Bool
  crcOk : Option Bool
  crcCorrected : Bool
  crcCorrectedBits : Nat
  radio : Radio
  channelName : Option (List Byte)
  text : Option (List Byte)
  rawHex : Option (List Byte)

def nonEmpty (text : List Byte) : Option (List Byte) := if text = [] then none else some text

/-- `db_sqlite_publish`, for a MeshCore event. -/
def dbSqlitePublish (ev : MeshEvent) : EventRow where
  meshcore := ev.isMeshcore
  decrypted := ev.decrypted
  crcOk := if ev.hasCrc then some ev.payloadCrcOk else none
  crcCorrected := ev.crcCorrected
  crcCorrectedBits := ev.crcCorrectedBits
  -- a `NULL` column reads back as zero
  radio := if 0 < ev.sf then ⟨ev.snrDb, ev.sf, ev.cr, ev.bwHz⟩ else ⟨ev.snrDb, 0, 0, 0⟩
  channelName := nonEmpty ev.channelName
  text := if ev.decrypted && ev.isMeshcore then nonEmpty ev.mcText else none
  rawHex := nonEmpty ev.rawHex

def crcFailRawHex (row : EventRow) : Option (List Byte) :=
  if row.meshcore && row.crcOk == some false then row.rawHex else none

def dbSqliteApplyCrcRecover (row : EventRow) (bits : Nat) (ev : MeshEvent) : EventRow :=
  { row with
    crcOk := some true
    crcCorrected := true
    crcCorrectedBits := bits
    decrypted := ev.decrypted
    channelName := nonEmpty ev.channelName
    text := nonEmpty ev.mcText }

theorem row_of_failed {pub : MeshEvent} {payloadType : PayloadType} {raw : List Byte} {radio : Radio}
    (hid : pub.frameId = ⟨true, payloadType, raw, radio⟩) (hcrc : pub.hasCrc = true)
    (hbad : pub.payloadCrcOk = false) (hsf : 0 < radio.sf) (hraw : raw ≠ []) :
    crcFailRawHex (dbSqlitePublish pub) = some raw ∧ (dbSqlitePublish pub).radio = radio := by
  have hproto : pub.isMeshcore = true := congrArg FrameId.isMeshcore hid
  have hhex : pub.rawHex = raw := congrArg FrameId.rawHex hid
  have hradio : (⟨pub.snrDb, pub.sf, pub.cr, pub.bwHz⟩ : Radio) = radio := congrArg FrameId.radio hid
  have hpos : 0 < pub.sf := by
    have hsame : pub.sf = radio.sf := congrArg Radio.sf hradio
    rwa [hsame]
  constructor
  · simp [crcFailRawHex, dbSqlitePublish, hproto, hcrc, hbad, hhex, nonEmpty, hraw]
  · rw [dbSqlitePublish, if_pos hpos, hradio]

/-! ## The scan -/

inductive ScanOutcome where
  | notCandidate
  | noFrame
  | unrecoverable
  | decodeFailed
  | untrusted
  | fixed (bits : Nat) (frame : List Byte) (ev : MeshEvent)

def scanSearch (frame : List Byte) : Nat × List Byte :=
  let one := loraCrcBruteforceCorrect frame
  if one.1 then (1, one.2)
  else
    let two := loraCrcBruteforceCorrect2bit one.2
    if two.1 then (2, two.2) else (0, frame)

def recoveredEvent (ev : MeshEvent) (bits : Nat) : MeshEvent :=
  { ev with hasCrc := true, payloadCrcOk := true, crcCorrected := true, crcCorrectedBits := bits }

def scanTrusted (ev : MeshEvent) (bits : Nat) : Bool :=
  !(decide (2 ≤ bits) || (bits == 1 && authable ev.mcPayloadType)) || meshEventCrc2bitTrusted ev

def scanRow (env : Env) (channels : ChannelSet) (row : EventRow) : ScanOutcome :=
  match crcFailRawHex row with
  | none => .notCandidate
  | some hex =>
    match hexDecode hex 256 with
    | none => .noFrame
    | some frame =>
      if frame.length < 4 then .noFrame
      else
        let found := scanSearch frame
        if found.1 = 0 then .unrecoverable
        else
          match meshcorePacketDecodeWithRadio env (some channels) row.radio found.2 with
          | none => .decodeFailed
          | some ev =>
            let ev := recoveredEvent ev found.1
            if scanTrusted ev found.1 then .fixed found.1 found.2 ev else .untrusted

def meshcoreCrcRecoverScan (env : Env) (channels : Option ChannelSet) (rows : List EventRow) :
    List EventRow :=
  match channels with
  | none => rows
  | some cs =>
    rows.map fun row =>
      match scanRow env cs row with
      | .fixed bits _ ev => dbSqliteApplyCrcRecover row bits ev
      | _ => row

/-! ## The publication gate -/

theorem scanTrusted_iff (ev : MeshEvent) (bits : Nat) :
    scanTrusted (recoveredEvent ev bits) bits = true ↔
      ((2 ≤ bits ∨ bits = 1 ∧ authable ev.mcPayloadType = true) →
        meshEventCrc2bitTrusted ev = true) := by
  have htrust : meshEventCrc2bitTrusted (recoveredEvent ev bits) = meshEventCrc2bitTrusted ev := rfl
  have htype : (recoveredEvent ev bits).mcPayloadType = ev.mcPayloadType := rfl
  rw [scanTrusted, htrust, htype, Bool.or_eq_true, Bool.not_eq_true', ← Bool.not_eq_true,
    Bool.or_eq_true, decide_eq_true_eq, Bool.and_eq_true, beq_iff_eq]
  exact imp_iff_not_or.symm

/-- **Publication gate.** Nothing is published as decrypted after a failed CRC; a two-bit
correction, and a one-bit correction of a type that can be authenticated, only of an authenticated
frame; and the recovery scan accepts a MeshCore event exactly when it would be published as
corrected. -/
theorem publication_gate {env : Env} {channels : Option ChannelSet} {ev : MeshEvent}
    (h : Decoded env channels ev) (ctx : Option FrameEmitCtx) :
    ((onMeshEvent ev ctx).hasCrc = true → (onMeshEvent ev ctx).payloadCrcOk = false →
      (onMeshEvent ev ctx).decrypted = false) ∧
    ((onMeshEvent ev ctx).crcCorrectedBits = 2 → EventAuthenticated env channels ev) ∧
    ((onMeshEvent ev ctx).crcCorrectedBits = 1 →
      authable (onMeshEvent ev ctx).mcPayloadType = true → EventAuthenticated env channels ev) ∧
    (ev.isMeshcore = true → ∀ c : FrameEmitCtx,
      c.hasCrc = true → c.payloadCrcOk = true → c.crcCorrected = true →
      (scanTrusted (recoveredEvent ev c.crcCorrectedBits) c.crcCorrectedBits = true ↔
        (onMeshEvent ev (some c)).crcCorrected = true)) := by
  refine ⟨failed_not_decrypted h ctx, fun hbits => ?_, fun hbits htype => ?_, ?_⟩
  · refine authenticated_of_published h ctx (by rw [hbits]; decide) ?_
    simp [crcRecoveryNeedsGate, hbits]
  · refine authenticated_of_published h ctx (by rw [hbits]; decide) ?_
    have hkept := onMeshEvent_frameId ev ctx
    have hsame : (onMeshEvent ev ctx).mcPayloadType = ev.mcPayloadType :=
      congrArg FrameId.payloadType hkept
    have hproto : (onMeshEvent ev ctx).isMeshcore = true :=
      (congrArg FrameId.isMeshcore hkept).trans (h.isMeshcore_of_authable (hsame ▸ htype))
    simp [crcRecoveryNeedsGate, hbits, hproto, htype]
  · intro hproto c _ hok hcor
    rw [scanTrusted_iff, onMeshEvent_corrected_iff hproto hok hcor]

theorem two_le_standIn (_ _ : List Byte) : 2 ≤ [0xAA#8, 0xBB#8].length := le_rfl

def standInEnv : Env where
  crypto :=
    { hmacSha256 := fun _ _ => [0xAA, 0xBB]
      aes128Decrypt := fun _ block => block
      ed25519Verify := fun _ _ _ => true
      two_le_hmac := two_le_standIn
      length_aes := fun _ _ h => h }
  regionResolveFast := fun _ _ _ => none
  lppDecode := fun _ => none

def standInChannels : ChannelSet where
  entries := [{ name := [0x50], secret := List.replicate 16 0x8B, hash := 0x11 }]
  length_le := by decide

def groupFrame : List Byte :=
  [0x15, 0x00, 0x11, 0xAA, 0xBB, 0x01, 0x00, 0x00, 0x00, 0x00, 0x68, 0x69, 0, 0, 0, 0, 0, 0, 0, 0, 0]

def twoBitCall : DecodeCall where
  frame := groupFrame
  radio := ⟨7, 8, 1, 62500⟩
  ctx :=
    { channelId := 3, hasCrc := true, payloadCrcOk := true, crcCorrected := true
      crcCorrectedBits := 2, stationTNs := 0, preambleLockSampleIdx := 0 }

theorem publication_gate_group :
    ∃ ev, meshcorePacketDecodeWithRadio standInEnv (some standInChannels) twoBitCall.radio
        groupFrame = some ev ∧
      (onMeshEvent ev (some twoBitCall.ctx)).crcCorrectedBits = 2 ∧
      (onMeshEvent ev (some twoBitCall.ctx)).decrypted = true ∧
      EventAuthenticated standInEnv (some standInChannels) ev := by
  have hpkt : (meshcorePacketParse groupFrame).isSome := by decide
  have hpub : (handleCall standInEnv (some standInChannels) twoBitCall).map
      (fun ev => (ev.crcCorrectedBits, ev.decrypted)) = some (2, true) := by decide +kernel
  obtain ⟨pkt, hparse⟩ := Option.isSome_iff_exists.mp hpkt
  obtain ⟨pub, hcall, hfields⟩ := Option.map_eq_some_iff.mp hpub
  obtain ⟨ev, hdecode, hpub⟩ := Option.map_eq_some_iff.mp hcall
  rw [← hpub, Prod.mk.injEq] at hfields
  exact ⟨ev, hdecode, hfields.1, hfields.2,
    (publication_gate (.meshcore hparse hdecode) (some twoBitCall.ctx)).2.1 hfields.1⟩

end MeshcoreSniffer.Pipeline
