import MeshcoreSniffer.Pipeline.Drainer

/-!
# Publication

`on_mesh_event` stamps the receive quality on a copy of the event, hides the plaintext of a frame
that failed its CRC, and withdraws a bit correction that nothing but the CRC supports.
-/

namespace MeshcoreSniffer.Pipeline

open Lib Meshcore

def channelizerMaxChannels : Int := 1024

def stampedSlot (channelId : Int) : Int :=
  if 0 ≤ channelId ∧ channelId < channelizerMaxChannels then channelId else -1

def stamp (ev : MeshEvent) : Option FrameEmitCtx → MeshEvent
  | none => { ev with slotId := stampedSlot (-1) }
  | some ctx =>
    let stamped := { ev with
      slotId := stampedSlot ctx.channelId
      hasCrc := ctx.hasCrc
      payloadCrcOk := ctx.payloadCrcOk
      crcCorrected := ctx.crcCorrected
      crcCorrectedBits := ctx.crcCorrectedBits
      stationTNs := ctx.stationTNs
      preambleLockSampleIdx := ctx.preambleLockSampleIdx }
    -- plaintext of a failed frame is garbage
    if ctx.hasCrc && !ctx.payloadCrcOk then { stamped with decrypted := false } else stamped

def authable (payloadType : PayloadType) : Bool :=
  payloadType == .grpTxt || payloadType == .grpData || payloadType == .advert

def crcRecoveryNeedsGate (ev : MeshEvent) : Bool :=
  decide (2 ≤ ev.crcCorrectedBits) ||
    (ev.crcCorrectedBits == 1 && (ev.isMeshcore && authable ev.mcPayloadType))

def gate (ev : MeshEvent) : MeshEvent :=
  if crcRecoveryNeedsGate ev && !meshEventCrc2bitTrusted ev then
    { ev with payloadCrcOk := false, crcCorrected := false, crcCorrectedBits := 0, decrypted := false }
  else ev

def onMeshEvent (ev : MeshEvent) (ctx : Option FrameEmitCtx) : MeshEvent := gate (stamp ev ctx)

def handleCall (env : Env) (channels : Option ChannelSet) (call : DecodeCall) : Option MeshEvent :=
  (meshcorePacketDecodeWithRadio env channels call.radio call.frame).map
    (onMeshEvent · (some call.ctx))

/-! ## The two blocks -/

variable (ev : MeshEvent)

theorem stamp_frameId (ctx : Option FrameEmitCtx) : (stamp ev ctx).frameId = ev.frameId := by
  unfold stamp
  split
  next => rfl
  next =>
    dsimp only
    split <;> rfl

theorem trusted_of_stamp {ev : MeshEvent} {ctx : Option FrameEmitCtx}
    (h : meshEventCrc2bitTrusted (stamp ev ctx) = true) : meshEventCrc2bitTrusted ev = true := by
  unfold stamp at h
  split at h
  next => exact h
  next =>
    dsimp only at h
    split at h
    next =>
      -- the plaintext is hidden, so only a signature can have been trusted
      simp only [meshEventCrc2bitTrusted, Bool.and_false, Bool.false_or, Bool.and_eq_true] at h
      simp [meshEventCrc2bitTrusted, h.1, h.2]
    next => exact h

theorem gate_cases :
    (gate ev = ev ∧ (crcRecoveryNeedsGate ev = true → meshEventCrc2bitTrusted ev = true)) ∨
      ((gate ev).crcCorrected = false ∧ (gate ev).crcCorrectedBits = 0 ∧
        (gate ev).decrypted = false ∧ crcRecoveryNeedsGate ev = true ∧
        meshEventCrc2bitTrusted ev = false) := by
  unfold gate
  split
  next h =>
    rw [Bool.and_eq_true, Bool.not_eq_true'] at h
    exact Or.inr ⟨rfl, rfl, rfl, h.1, h.2⟩
  next h =>
    refine Or.inl ⟨rfl, fun hneeds => ?_⟩
    simpa [hneeds] using h

theorem gate_frameId : (gate ev).frameId = ev.frameId := by
  unfold gate
  split <;> rfl

theorem onMeshEvent_frameId (ctx : Option FrameEmitCtx) :
    (onMeshEvent ev ctx).frameId = ev.frameId := by
  rw [onMeshEvent, gate_frameId, stamp_frameId]

theorem onMeshEvent_hasCrc (ctx : FrameEmitCtx) :
    (onMeshEvent ev (some ctx)).hasCrc = ctx.hasCrc := by
  have hstamp : (stamp ev (some ctx)).hasCrc = ctx.hasCrc := by
    unfold stamp
    dsimp only
    split <;> rfl
  rw [onMeshEvent, gate]
  split <;> exact hstamp

theorem onMeshEvent_corrected_iff {ev : MeshEvent} {ctx : FrameEmitCtx}
    (hproto : ev.isMeshcore = true) (hok : ctx.payloadCrcOk = true)
    (hcor : ctx.crcCorrected = true) :
    (onMeshEvent ev (some ctx)).crcCorrected = true ↔
      ((2 ≤ ctx.crcCorrectedBits ∨ ctx.crcCorrectedBits = 1 ∧ authable ev.mcPayloadType = true) →
        meshEventCrc2bitTrusted ev = true) := by
  -- a good CRC hides nothing, so the stamped event is as trusted as the decoded one
  have hstamp : stamp ev (some ctx) =
      { ev with
        slotId := stampedSlot ctx.channelId, hasCrc := ctx.hasCrc, payloadCrcOk := true
        crcCorrected := true, crcCorrectedBits := ctx.crcCorrectedBits
        stationTNs := ctx.stationTNs, preambleLockSampleIdx := ctx.preambleLockSampleIdx } := by
    simp [stamp, hok, hcor]
  have htrust : meshEventCrc2bitTrusted (stamp ev (some ctx)) = meshEventCrc2bitTrusted ev := by
    rw [hstamp]
    rfl
  have hneeds : crcRecoveryNeedsGate (stamp ev (some ctx)) = true ↔
      (2 ≤ ctx.crcCorrectedBits ∨ ctx.crcCorrectedBits = 1 ∧ authable ev.mcPayloadType = true) := by
    rw [hstamp]
    simp [crcRecoveryNeedsGate, hproto]
  rw [← hneeds, ← htrust]
  rcases gate_cases (stamp ev (some ctx)) with ⟨hsame, hgate⟩ | ⟨hcleared, -, -, hneed, huntrusted⟩
  · rw [onMeshEvent, hsame]
    refine ⟨fun _ => hgate, fun _ => ?_⟩
    rw [hstamp]
  · rw [onMeshEvent, hcleared]
    refine ⟨fun h => ?_, fun h => ?_⟩
    · cases h
    · rw [h hneed] at huntrusted
      cases huntrusted

/-! ## What is published -/

/-- The MeshCore decoder, or the Meshtastic one, which leaves the MeshCore and receive-quality
fields zeroed. -/
inductive Decoded (env : Env) (channels : Option ChannelSet) : MeshEvent → Prop where
  | meshcore {radio : Radio} {frame : List Byte} {pkt : Packet} {ev : MeshEvent}
      (hparse : meshcorePacketParse frame = some pkt)
      (hdecode : meshcorePacketDecodeWithRadio env channels radio frame = some ev) :
      Decoded env channels ev
  | meshtastic {ev : MeshEvent} (hproto : ev.isMeshcore = false)
      (htype : ev.mcPayloadType = .req) (hcrc : ev.hasCrc = false)
      (hbits : ev.crcCorrectedBits = 0) : Decoded env channels ev

def EventAuthenticated (env : Env) (channels : Option ChannelSet) (ev : MeshEvent) : Prop :=
  ∃ radio frame pkt, meshcorePacketParse frame = some pkt ∧
    meshcorePacketDecodeWithRadio env channels radio frame = some ev ∧
    Authenticated env.crypto channels pkt

section Decoded

variable {env : Env} {channels : Option ChannelSet} {ev : MeshEvent}

theorem Decoded.hasCrc_eq_false (h : Decoded env channels ev) : ev.hasCrc = false := by
  cases h with
  | meshcore hparse hdecode => exact congrArg (·.hasCrc) (frameFields_decode hparse hdecode)
  | meshtastic _ _ hcrc _ => exact hcrc

theorem Decoded.authenticated (h : Decoded env channels ev)
    (htrust : meshEventCrc2bitTrusted ev = true) : EventAuthenticated env channels ev := by
  cases h with
  | meshcore hparse hdecode =>
    exact ⟨_, _, _, hparse, hdecode, authenticated_of_trusted hparse hdecode htrust⟩
  | meshtastic hproto =>
    rw [meshEventCrc2bitTrusted, hproto, Bool.false_and] at htrust
    cases htrust

theorem Decoded.isMeshcore_of_authable (h : Decoded env channels ev)
    (htype : authable ev.mcPayloadType = true) : ev.isMeshcore = true := by
  cases h with
  | meshcore hparse hdecode =>
    exact congrArg (·.isMeshcore) (frameFields_decode hparse hdecode)
  | meshtastic _ hreq =>
    rw [hreq] at htype
    cases htype

theorem failed_not_decrypted (h : Decoded env channels ev) (ctx : Option FrameEmitCtx)
    (hcrc : (onMeshEvent ev ctx).hasCrc = true) (hbad : (onMeshEvent ev ctx).payloadCrcOk = false) :
    (onMeshEvent ev ctx).decrypted = false := by
  rcases gate_cases (stamp ev ctx) with ⟨hsame, -⟩ | ⟨-, -, hdec, -⟩
  · rw [onMeshEvent, hsame] at hcrc hbad ⊢
    cases ctx with
    | none =>
      have : ev.hasCrc = true := hcrc
      rw [h.hasCrc_eq_false] at this
      cases this
    | some ctx =>
      unfold stamp at hcrc hbad ⊢
      dsimp only at hcrc hbad ⊢
      split
      next => rfl
      next hok =>
        rw [if_neg hok] at hcrc hbad
        have hcrc : ctx.hasCrc = true := hcrc
        have hbad : ctx.payloadCrcOk = false := hbad
        rw [hcrc, hbad] at hok
        exact absurd rfl hok
  · exact hdec

theorem authenticated_of_published (h : Decoded env channels ev) (ctx : Option FrameEmitCtx)
    (hbits : (onMeshEvent ev ctx).crcCorrectedBits ≠ 0)
    (hneeds : crcRecoveryNeedsGate (onMeshEvent ev ctx) = true) :
    EventAuthenticated env channels ev := by
  rcases gate_cases (stamp ev ctx) with ⟨hsame, htrust⟩ | ⟨-, hzero, -⟩
  · rw [onMeshEvent, hsame] at hneeds
    exact h.authenticated (trusted_of_stamp (htrust hneeds))
  · exact absurd hzero hbits

end Decoded

end MeshcoreSniffer.Pipeline
