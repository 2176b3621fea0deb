import MeshcoreSniffer.Meshcore.Packet

/-!
# MeshCore payload decoders

`meshcore_decoders.c`: one decoder for each payload type and the dispatcher. C strings are lists of
bytes without the terminator; cryptography, region names and telemetry are parameters (`Env`).
-/

namespace MeshcoreSniffer.Meshcore

open Lib Option

structure Env where
  crypto : Crypto
  /-- `meshcore_region_resolve_fast`: the name on a cache hit. -/
  regionResolveFast : PayloadType → List Byte → BitVec 16 → Option (List Byte)
  /-- `meshcore_lpp_decode` with its two renderings (JSON, text), when at least
  one record was read. -/
  lppDecode : List Byte → Option (List Byte × List Byte)

/-- `meshcore_channel_t`; the secret has `secret_len` bytes. -/
structure Channel where
  name : List Byte
  secret : List Byte
  hash : Byte
  deriving DecidableEq

def channelMaxEntries : Nat := 32

structure ChannelSet where
  entries : List Channel
  length_le : entries.length ≤ channelMaxEntries

/-- `meshcore_channelset_lookup`: channels with that hash first, then the rest. -/
def ChannelSet.lookup (cs : ChannelSet) (hash : Byte) : List Channel :=
  (cs.entries.filter (·.hash == hash) ++ cs.entries.filter (·.hash != hash)).take channelMaxEntries

theorem ChannelSet.mem_of_mem_lookup {cs : ChannelSet} {hash : Byte} {ch : Channel}
    (h : ch ∈ cs.lookup hash) : ch ∈ cs.entries := by
  rcases List.mem_append.mp (List.mem_of_mem_take h) with hmem | hmem
  · exact List.mem_of_mem_filter hmem
  · exact List.mem_of_mem_filter hmem

/-- What the publisher stamps, the raw frame, and everything a MeshCore decoder writes. -/
structure MeshEvent where
  decrypted : Bool := false
  channelName : List Byte := []
  snrDb : ℚ := 0
  sf : Nat := 0
  cr : Nat := 0
  bwHz : Nat := 0
  slotId : Int := 0
  hasCrc : Bool := false
  payloadCrcOk : Bool := false
  crcCorrected : Bool := false
  crcCorrectedBits : Nat := 0
  stationTNs : Nat := 0
  preambleLockSampleIdx : BitVec 64 := 0
  rawHex : List Byte := []
  isMeshcore : Bool := false
  mcRouteType : RouteType := .transportFlood
  mcPayloadType : PayloadType := .req
  mcPayloadVer : BitVec 2 := 0
  mcTypeName : String := ""
  mcDestHash : Byte := 0
  mcSrcHash : Byte := 0
  mcChannelHash : Byte := 0
  mcTimestamp : BitVec 32 := 0
  mcNodeName : List Byte := []
  mcText : List Byte := []
  mcPubkey : List Byte := List.replicate pubKeySize 0
  mcPathHopCount : Nat := 0
  mcPathSnrs : List Byte := []
  mcPathHashes : List Byte := []
  mcHdrPathHashCount : Nat := 0
  mcHdrPathHashSize : Nat := 0
  mcHdrPath : List Byte := []
  mcSigValid : Bool := false
  mcDataType : BitVec 16 := 0
  mcDataLen : BitVec 16 := 0
  mcTxtType : Byte := 0
  mcTelemetryJson : List Byte := []
  mcAdvType : Byte := 0
  mcHasLatlon : Bool := false
  mcLat : ℚ := 0
  mcLon : ℚ := 0
  mcHasName : Bool := false
  mcExtra1 : BitVec 16 := 0
  mcExtra2 : BitVec 16 := 0
  mcHasRegionScope : Bool := false
  mcRegionCode1 : BitVec 16 := 0
  mcRegionCode2 : BitVec 16 := 0
  mcRegionName : List Byte := []
  mcMultipartRemaining : Byte := 0
  mcMultipartInnerType : PayloadType := .req
  mcCtlSubtype : String := ""
  mcCtlTag : BitVec 32 := 0
  mcCtlFilter : Byte := 0
  mcCtlSince : BitVec 32 := 0
  mcCtlSnr : ℚ := 0
  deriving DecidableEq

/-! ## Text helpers -/

/-- `copy_printable` into a buffer of `max` bytes: up to the first NUL. -/
def copyPrintable (p : List Byte) (max : Nat) : List Byte :=
  (p.take (max - 1)).takeWhile (· != 0)

def hexDigits : List Byte :=
  [0x30, 0x31, 0x32, 0x33, 0x34, 0x35, 0x36, 0x37, 0x38, 0x39, 0x61, 0x62, 0x63, 0x64, 0x65, 0x66]

def hexByte (b : Byte) : List Byte :=
  [hexDigits.getD (b >>> 4).toNat 0, hexDigits.getD (b &&& 0xF).toNat 0]

/-- `hex_dump` into a buffer of `max` bytes: whole pairs only. -/
def hexDump (p : List Byte) (max : Nat) : List Byte :=
  (p.take ((max - 1) / 2)).flatMap hexByte

/-! ## ADVERT -/

def meshcoreAdvertVerifySignature (c : Crypto) (pubkey : List Byte) (timestamp : BitVec 32)
    (appData signature : List Byte) : Bool :=
  if maxPacketPayload < appData.length then false
  else
    c.ed25519Verify pubkey
      (pubkey ++ [timestamp.setWidth 8, (timestamp >>> 8).setWidth 8,
        (timestamp >>> 16).setWidth 8, (timestamp >>> 24).setWidth 8] ++ appData)
      signature

def mcLatlonPlausible (lat lon : ℚ) : Bool :=
  if lat < -90 ∨ 90 < lat ∨ lon < -180 ∨ 180 < lon then false
  else if lat = 0 ∧ lon = 0 then false
  else true

def readLatlon (app : List Byte) (flags : Byte) (ev : MeshEvent) (i : Nat) : MeshEvent × Nat :=
  if flags &&& 0x10 ≠ 0 then
    if i + 8 ≤ app.length then
      let lat : ℚ := (rdLe32 (app.drop i)).toInt / 1000000
      let lon : ℚ := (rdLe32 (app.drop (i + 4))).toInt / 1000000
      if mcLatlonPlausible lat lon then
        ({ ev with mcHasLatlon := true, mcLat := lat, mcLon := lon }, i + 8)
      else (ev, i + 8)
    else (ev, app.length)
  else (ev, i)

/-- A two-byte feature field behind the flag `mask`, stored by `set`. -/
def readExtra (app : List Byte) (flags mask : Byte) (set : BitVec 16 → MeshEvent → MeshEvent)
    (ev : MeshEvent) (i : Nat) : MeshEvent × Nat :=
  if flags &&& mask ≠ 0 then
    if i + 2 ≤ app.length then (set (rdLe16 (app.drop i)) ev, i + 2) else (ev, app.length)
  else (ev, i)

def readExtra1 (app : List Byte) (flags : Byte) : MeshEvent → Nat → MeshEvent × Nat :=
  readExtra app flags 0x20 fun v ev => { ev with mcExtra1 := v }

def readExtra2 (app : List Byte) (flags : Byte) : MeshEvent → Nat → MeshEvent × Nat :=
  readExtra app flags 0x40 fun v ev => { ev with mcExtra2 := v }

def readName (app : List Byte) (flags : Byte) (ev : MeshEvent) (i : Nat) : MeshEvent :=
  if flags &&& 0x80 ≠ 0 ∧ i ≤ app.length then
    { ev with mcHasName := true, mcNodeName := copyPrintable (app.drop i) 40 }
  else ev

def readAppData (app : List Byte) (ev : MeshEvent) : MeshEvent :=
  match app with
  | [] => ev
  | flags :: _ =>
    let latlon := readLatlon app flags { ev with mcAdvType := flags &&& 0x0F } 1
    let extra1 := readExtra1 app flags latlon.1 latlon.2
    let extra2 := readExtra2 app flags extra1.1 extra1.2
    readName app flags extra2.1 extra2.2

def advertPubkey (payload : List Byte) : List Byte := payload.take pubKeySize

def advertTimestamp (payload : List Byte) : BitVec 32 := rdLe32 (payload.drop pubKeySize)

def advertSignature (payload : List Byte) : List Byte :=
  (payload.drop (pubKeySize + 4)).take signatureSize

def advertAppData (payload : List Byte) : List Byte :=
  payload.drop (pubKeySize + 4 + signatureSize)

def advertSigned (c : Crypto) (payload : List Byte) : Bool :=
  meshcoreAdvertVerifySignature c (advertPubkey payload) (advertTimestamp payload)
    (advertAppData payload) (advertSignature payload)

def meshcoreDecodeAdvert (env : Env) (pkt : Packet) (ev : MeshEvent) : Option MeshEvent :=
  if pkt.payload.length < pubKeySize + 4 + signatureSize then none
  else
    let ev := { ev with
      mcPubkey := advertPubkey pkt.payload
      mcTimestamp := advertTimestamp pkt.payload
      mcSigValid := advertSigned env.crypto pkt.payload }
    some { readAppData (advertAppData pkt.payload) ev with mcTypeName := "ADVERT", decrypted := true }

/-! ## TRACE -/

/-- `meshcore_decode_trace`. The hop tables are zero behind what is written. -/
def meshcoreDecodeTrace (pkt : Packet) (ev : MeshEvent) : Option MeshEvent :=
  if pkt.payload.length < 9 then none
  else
    let flags := pkt.payload.getD 8 0
    let route := pkt.payload.drop 9
    let entrySize := 2 ^ (flags &&& 0x03).toNat
    let routeHops := min (route.length / entrySize) maxPathSize
    let snrHops := min pkt.pathHashCount maxPathSize
    some { ev with
      mcPathSnrs := pkt.path.take snrHops
      mcPathHashes := (List.range routeHops).map fun i => route.getD (i * entrySize) 0
      mcPathHopCount := max routeHops snrHops
      mcTypeName := "TRACE"
      decrypted := true }

/-! ## Group messages -/

/-- The plaintext and the channel of the first key that verifies. -/
def grpDecrypt (c : Crypto) (channels : Option ChannelSet) (pkt : Packet) :
    Option (List Byte × Channel) :=
  if pkt.payload.length < 1 + cipherMacSize then none
  else
    match channels with
    | none => none
    | some cs =>
      (cs.lookup (pkt.payload.getD 0 0)).findSome? fun ch =>
        (meshcoreVerifyAndDecrypt c ch.secret (pkt.payload.drop 1)).map fun plain => (plain, ch)

def grpUndecrypted (name : String) (pkt : Packet) (ev : MeshEvent) : MeshEvent :=
  { ev with mcTypeName := name, mcChannelHash := pkt.payload.getD 0 0, decrypted := false }

def meshcoreDecodeGrpTxt (env : Env) (channels : Option ChannelSet) (pkt : Packet)
    (ev : MeshEvent) : Option MeshEvent :=
  match grpDecrypt env.crypto channels pkt with
  | none => some (grpUndecrypted "GRP_TXT" pkt ev)
  | some (plain, ch) =>
    if plain.length < 5 then none
    else
      let txtType := plain.getD 4 0
      if txtType >>> 2 ≠ 0 then none
      else
        some { ev with
          mcTimestamp := rdLe32 plain
          mcTxtType := txtType
          mcText := copyPrintable (plain.drop 5) 256
          channelName := ch.name.take 31
          mcChannelHash := ch.hash
          mcTypeName := "GRP_TXT"
          decrypted := true }

def grpDataBlob (env : Env) (blob : List Byte) (ev : MeshEvent) : MeshEvent :=
  match env.lppDecode blob with
  | some (json, text) => { ev with mcTelemetryJson := json, mcText := text }
  | none => { ev with mcText := hexDump blob 256 }

def meshcoreDecodeGrpData (env : Env) (channels : Option ChannelSet) (pkt : Packet)
    (ev : MeshEvent) : Option MeshEvent :=
  match grpDecrypt env.crypto channels pkt with
  | none => some (grpUndecrypted "GRP_DATA" pkt ev)
  | some (plain, ch) =>
    if plain.length < 3 then none
    else
      let dataLen := plain.getD 2 0
      let blob := (plain.drop 3).take dataLen.toNat
      let ev := { ev with mcDataType := rdLe16 plain, mcDataLen := dataLen.setWidth 16 }
      some { grpDataBlob env blob ev with
        channelName := ch.name.take 31
        mcChannelHash := ch.hash
        mcTypeName := "GRP_DATA"
        decrypted := true }

/-! ## The other payload types -/

def decodeEnvelopeOnly (name : String) (hasPubkey : Bool) (pkt : Packet) (ev : MeshEvent) :
    Option MeshEvent :=
  let hdrLen := if hasPubkey then 1 + pubKeySize + cipherMacSize else 2 + cipherMacSize
  if pkt.payload.length < hdrLen then none
  else if hasPubkey then
    some { ev with
      mcDestHash := pkt.payload.getD 0 0
      mcPubkey := (pkt.payload.drop 1).take pubKeySize
      mcTypeName := name
      decrypted := false }
  else
    some { ev with
      mcDestHash := pkt.payload.getD 0 0
      mcSrcHash := pkt.payload.getD 1 0
      mcTypeName := name
      decrypted := false }

/-- The timestamp field holds the checksum. -/
def decodeAck (pkt : Packet) (ev : MeshEvent) : Option MeshEvent :=
  if pkt.payload.length < 4 then none
  else some { ev with mcTimestamp := rdLe32 pkt.payload, mcTypeName := "ACK", decrypted := true }

def decodeUnknown (pkt : Packet) (ev : MeshEvent) : Option MeshEvent :=
  some { ev with mcTypeName := pkt.payloadType.name, decrypted := false }

def decodeMultipart (pkt : Packet) (ev : MeshEvent) : Option MeshEvent :=
  if pkt.payload.length < 1 then none
  else
    let b0 := pkt.payload.getD 0 0
    let ev := { ev with
      mcTypeName := "MULTIPART"
      mcMultipartRemaining := b0 >>> 4
      mcMultipartInnerType := PayloadType.ofCode (b0.setWidth 4) }
    if ev.mcMultipartInnerType = .ack ∧ 5 ≤ pkt.payload.length then
      some { ev with mcTimestamp := rdLe32 (pkt.payload.drop 1), decrypted := true }
    else some { ev with decrypted := false }

def decodeControl (pkt : Packet) (ev : MeshEvent) : Option MeshEvent :=
  if pkt.payload.length < 1 then none
  else
    let b0 := pkt.payload.getD 0 0
    let ev := { ev with mcTypeName := "CONTROL" }
    if b0 &&& 0xF0 = 0x80 ∧ 6 ≤ pkt.payload.length then
      some { ev with
        mcCtlSubtype := "NODE_DISCOVER_REQ"
        mcCtlFilter := pkt.payload.getD 1 0
        mcCtlTag := rdLe32 (pkt.payload.drop 2)
        mcCtlSince := if 10 ≤ pkt.payload.length then rdLe32 (pkt.payload.drop 6) else ev.mcCtlSince
        decrypted := true }
    else if b0 &&& 0xF0 = 0x90 ∧ 6 + pubKeySize ≤ pkt.payload.length then
      some { ev with
        mcCtlSubtype := "NODE_DISCOVER_RESP"
        mcAdvType := b0 &&& 0x0F
        mcCtlSnr := (pkt.payload.getD 1 0).toInt / 4
        mcCtlTag := rdLe32 (pkt.payload.drop 2)
        mcPubkey := (pkt.payload.drop 6).take pubKeySize
        decrypted := true }
    else some { ev with decrypted := false }

/-! ## The dispatcher -/

structure Radio where
  snrDb : ℚ
  sf : Nat
  cr : Nat
  bwHz : Nat

def frameEvent (env : Env) (frame : List Byte) (radio : Radio) (pkt : Packet) : MeshEvent where
  isMeshcore := true
  snrDb := radio.snrDb
  sf := radio.sf
  cr := radio.cr
  bwHz := radio.bwHz
  slotId := -1
  mcRouteType := pkt.routeType
  mcPayloadType := pkt.payloadType
  mcPayloadVer := pkt.payloadVer
  mcHdrPathHashCount := pkt.pathHashCount
  mcHdrPathHashSize := pkt.pathHashSize
  mcHdrPath := pkt.path
  mcHasRegionScope := pkt.hasTransportCodes
  mcRegionCode1 := if pkt.hasTransportCodes then pkt.transportCode1 else 0
  mcRegionCode2 := if pkt.hasTransportCodes then pkt.transportCode2 else 0
  mcRegionName :=
    if pkt.hasTransportCodes then
      (env.regionResolveFast pkt.payloadType pkt.payload pkt.transportCode1).getD []
    else []
  rawHex := hexDump (frame.take 256) 513

def decodePayload (env : Env) (channels : Option ChannelSet) (pkt : Packet) (ev : MeshEvent) :
    Option MeshEvent :=
  match pkt.payloadType with
  | .advert => meshcoreDecodeAdvert env pkt ev
  | .trace => meshcoreDecodeTrace pkt ev
  | .grpTxt => meshcoreDecodeGrpTxt env channels pkt ev
  | .grpData => meshcoreDecodeGrpData env channels pkt ev
  | .ack => decodeAck pkt ev
  | .txtMsg | .req | .response | .path => decodeEnvelopeOnly pkt.payloadType.name false pkt ev
  | .anonReq => decodeEnvelopeOnly "ANON_REQ" true pkt ev
  | .multipart => decodeMultipart pkt ev
  | .control => decodeControl pkt ev
  | .rawCustom | .unassigned _ => decodeUnknown pkt ev

/-- The event given to the callback, or `none` for a return code of -1. -/
def meshcorePacketDecodeWithRadio (env : Env) (channels : Option ChannelSet) (radio : Radio)
    (frame : List Byte) : Option MeshEvent :=
  (meshcorePacketParse frame).bind fun pkt =>
    decodePayload env channels pkt (frameEvent env frame radio pkt)

def meshEventCrc2bitTrusted (ev : MeshEvent) : Bool :=
  ev.isMeshcore &&
    ((ev.mcPayloadType == .grpTxt || ev.mcPayloadType == .grpData) && ev.decrypted ||
      ev.mcPayloadType == .advert && ev.mcSigValid)

/-! ## What the decoders leave alone -/

structure FrameId where
  isMeshcore : Bool
  payloadType : PayloadType
  rawHex : List Byte
  radio : Radio

def MeshEvent.frameId (ev : MeshEvent) : FrameId where
  isMeshcore := ev.isMeshcore
  payloadType := ev.mcPayloadType
  rawHex := ev.rawHex
  radio := ⟨ev.snrDb, ev.sf, ev.cr, ev.bwHz⟩

/-- With how well the frame was received. The ADVERT decoder writes the verdict on the signature. -/
structure FrameFields extends FrameId where
  sigValid : Bool
  hasCrc : Bool
  crcCorrected : Bool
  crcCorrectedBits : Nat

def MeshEvent.frameFields (ev : MeshEvent) : FrameFields where
  toFrameId := ev.frameId
  sigValid := ev.mcSigValid
  hasCrc := ev.hasCrc
  crcCorrected := ev.crcCorrected
  crcCorrectedBits := ev.crcCorrectedBits

theorem frameFields_readLatlon (app : List Byte) (flags : Byte) (ev : MeshEvent) (i : Nat) :
    (readLatlon app flags ev i).1.frameFields = ev.frameFields := by
  unfold readLatlon
  dsimp only
  split_ifs <;> rfl

theorem frameFields_readExtra {set : BitVec 16 → MeshEvent → MeshEvent}
    (hset : ∀ v ev, (set v ev).frameFields = ev.frameFields) (app : List Byte) (flags mask : Byte)
    (ev : MeshEvent) (i : Nat) :
    (readExtra app flags mask set ev i).1.frameFields = ev.frameFields := by
  unfold readExtra
  split_ifs
  · exact hset _ ev
  · rfl
  · rfl

theorem frameFields_readName (app : List Byte) (flags : Byte) (ev : MeshEvent) (i : Nat) :
    (readName app flags ev i).frameFields = ev.frameFields := by
  unfold readName
  split_ifs <;> rfl

theorem frameFields_readAppData (app : List Byte) (ev : MeshEvent) :
    (readAppData app ev).frameFields = ev.frameFields := by
  unfold readAppData
  split
  next => rfl
  next =>
    dsimp only
    rw [frameFields_readName, readExtra2, frameFields_readExtra, readExtra1, frameFields_readExtra,
      frameFields_readLatlon]
    · rfl
    · exact fun _ _ => rfl
    · exact fun _ _ => rfl

theorem frameFields_advert {env : Env} {pkt : Packet} {ev ev' : MeshEvent}
    (h : meshcoreDecodeAdvert env pkt ev = some ev') :
    ev'.frameFields = { ev.frameFields with sigValid := advertSigned env.crypto pkt.payload } := by
  unfold meshcoreDecodeAdvert at h
  split at h
  next => cases h
  next =>
    cases h
    exact frameFields_readAppData _ _

section Frame

variable {env : Env} {channels : Option ChannelSet} {pkt : Packet} {ev ev' : MeshEvent}

theorem frameFields_trace (h : meshcoreDecodeTrace pkt ev = some ev') :
    ev'.frameFields = ev.frameFields := by
  unfold meshcoreDecodeTrace at h
  split at h <;> cases h
  rfl

theorem frameFields_grpTxt (h : meshcoreDecodeGrpTxt env channels pkt ev = some ev') :
    ev'.frameFields = ev.frameFields := by
  unfold meshcoreDecodeGrpTxt at h
  split at h
  next =>
    cases h
    rfl
  next =>
    dsimp only at h
    split_ifs at h
    cases h
    rfl

theorem frameFields_grpData (h : meshcoreDecodeGrpData env channels pkt ev = some ev') :
    ev'.frameFields = ev.frameFields := by
  unfold meshcoreDecodeGrpData at h
  split at h
  next =>
    cases h
    rfl
  next =>
    dsimp only at h
    split_ifs at h
    cases h
    unfold grpDataBlob
    split <;> rfl

theorem frameFields_envelope {name : String} {hasPubkey : Bool}
    (h : decodeEnvelopeOnly name hasPubkey pkt ev = some ev') :
    ev'.frameFields = ev.frameFields := by
  unfold decodeEnvelopeOnly at h
  dsimp only at h
  split_ifs at h <;> (cases h; rfl)

theorem frameFields_ack (h : decodeAck pkt ev = some ev') :
    ev'.frameFields = ev.frameFields := by
  unfold decodeAck at h
  split at h <;> cases h
  rfl

theorem frameFields_multipart (h : decodeMultipart pkt ev = some ev') :
    ev'.frameFields = ev.frameFields := by
  unfold decodeMultipart at h
  dsimp only at h
  split_ifs at h <;> (cases h; rfl)

theorem frameFields_control (h : decodeControl pkt ev = some ev') :
    ev'.frameFields = ev.frameFields := by
  unfold decodeControl at h
  dsimp only at h
  split_ifs at h <;> (cases h; rfl)

/-- **Decoders keep the frame**, up to the verdict on an ADVERT signature. -/
theorem frameFields_decodePayload (h : decodePayload env channels pkt ev = some ev') :
    ev'.frameFields =
      if pkt.payloadType = .advert then
        { ev.frameFields with sigValid := advertSigned env.crypto pkt.payload }
      else ev.frameFields := by
  unfold decodePayload at h
  cases htype : pkt.payloadType <;> simp only [htype] at h
  case advert => simpa using frameFields_advert h
  case trace => simpa using frameFields_trace h
  case grpTxt => simpa using frameFields_grpTxt h
  case grpData => simpa using frameFields_grpData h
  case ack => simpa using frameFields_ack h
  case multipart => simpa using frameFields_multipart h
  case control => simpa using frameFields_control h
  case rawCustom | unassigned =>
    cases h
    rfl
  all_goals simpa using frameFields_envelope h

variable {radio : Radio} {frame : List Byte}

theorem exists_parse_of_decode
    (h : meshcorePacketDecodeWithRadio env channels radio frame = some ev) :
    ∃ pkt, meshcorePacketParse frame = some pkt := by
  obtain ⟨pkt, hparse, -⟩ := bind_eq_some_iff.mp h
  exact ⟨pkt, hparse⟩

theorem frameFields_decode (hparse : meshcorePacketParse frame = some pkt)
    (h : meshcorePacketDecodeWithRadio env channels radio frame = some ev) : ev.frameFields =
      { isMeshcore := true
        payloadType := pkt.payloadType
        rawHex := hexDump (frame.take 256) 513
        radio := radio
        sigValid := decide (pkt.payloadType = .advert) && advertSigned env.crypto pkt.payload
        hasCrc := false
        crcCorrected := false
        crcCorrectedBits := 0 } := by
  rw [meshcorePacketDecodeWithRadio, hparse, bind_some] at h
  rw [frameFields_decodePayload h]
  by_cases hadv : pkt.payloadType = .advert
  · simp [hadv, MeshEvent.frameFields, MeshEvent.frameId, frameEvent]
  · simp [hadv, MeshEvent.frameFields, MeshEvent.frameId, frameEvent]

/-! ## What a trusted event proves -/

/-- A group message whose code verifies under a configured channel, or an ADVERT with a valid
signature. -/
def Authenticated (c : Crypto) (channels : Option ChannelSet) (pkt : Packet) : Prop :=
  ((pkt.payloadType = .grpTxt ∨ pkt.payloadType = .grpData) ∧
      ∃ cs, channels = some cs ∧
        ∃ ch ∈ cs.entries, AuthenticUnder c ch.secret (pkt.payload.drop 1)) ∨
    (pkt.payloadType = .advert ∧ advertSigned c pkt.payload = true)

theorem authentic_of_grpDecrypt {c : Crypto} {plain : List Byte} {ch : Channel}
    (h : grpDecrypt c channels pkt = some (plain, ch)) :
    ∃ cs, channels = some cs ∧
      ∃ ch ∈ cs.entries, AuthenticUnder c ch.secret (pkt.payload.drop 1) := by
  unfold grpDecrypt at h
  split at h
  next => cases h
  next =>
    split at h
    next => cases h
    next cs =>
      obtain ⟨ch', hmem, hdec⟩ := List.exists_of_findSome?_eq_some h
      obtain ⟨plain', hplain, -⟩ := map_eq_some_iff.mp hdec
      exact ⟨cs, rfl, ch', cs.mem_of_mem_lookup hmem, authentic_of_verifyAndDecrypt c hplain⟩

theorem grpDecrypt_of_decrypted (hparse : meshcorePacketParse frame = some pkt)
    (h : meshcorePacketDecodeWithRadio env channels radio frame = some ev)
    (hgrp : pkt.payloadType = .grpTxt ∨ pkt.payloadType = .grpData) (hdec : ev.decrypted = true) :
    ∃ found, grpDecrypt env.crypto channels pkt = some found := by
  rw [meshcorePacketDecodeWithRadio, hparse, bind_some] at h
  by_contra hnone
  have hnone : grpDecrypt env.crypto channels pkt = none := by
    simpa [← isSome_iff_exists] using hnone
  rcases hgrp with htype | htype
  · simp only [decodePayload, htype, meshcoreDecodeGrpTxt, hnone] at h
    cases h
    simp [grpUndecrypted] at hdec
  · simp only [decodePayload, htype, meshcoreDecodeGrpData, hnone] at h
    cases h
    simp [grpUndecrypted] at hdec

/-- **Trust is authentication** over the frame's own bytes. -/
theorem authenticated_of_trusted (hparse : meshcorePacketParse frame = some pkt)
    (h : meshcorePacketDecodeWithRadio env channels radio frame = some ev)
    (htrust : meshEventCrc2bitTrusted ev = true) : Authenticated env.crypto channels pkt := by
  have hframe := frameFields_decode hparse h
  have htype : ev.mcPayloadType = pkt.payloadType := congrArg (·.payloadType) hframe
  have hsig : ev.mcSigValid = _ := congrArg FrameFields.sigValid hframe
  simp only [meshEventCrc2bitTrusted, Bool.and_eq_true, Bool.or_eq_true, beq_iff_eq, htype] at htrust
  rcases htrust.2 with ⟨hgrp, hdec⟩ | ⟨hadv, hvalid⟩
  · obtain ⟨found, hfound⟩ := grpDecrypt_of_decrypted hparse h hgrp hdec
    exact Or.inl ⟨hgrp, authentic_of_grpDecrypt hfound⟩
  · rw [hsig, Bool.and_eq_true] at hvalid
    exact Or.inr ⟨hadv, hvalid.2⟩

end Frame

end MeshcoreSniffer.Meshcore
