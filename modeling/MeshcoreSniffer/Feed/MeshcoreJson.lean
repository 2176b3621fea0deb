import MeshcoreSniffer.Feed.Writer
import MeshcoreSniffer.Meshcore.Framing
import MeshcoreSniffer.Meshtastic.Packet

/-!
# MeshCore events as JSON

`feed_meshcore_json.c`. The fields of an event are slots in the order of the source, so their names
never depend on the event. Payload fields stand behind `decrypted`, off for a frame whose CRC
failed.
-/

namespace MeshcoreSniffer.Feed

open Lib List Lib.Printf
open Lib.Json Meshcore
open Meshtastic

def isZero : CFloat → Bool
  | .fin _ mag => mag == 0
  | .inf _ | .nan _ => false

/-! ## Slots -/

abbrev Slot := String × Option Value

def onlyIf (c : Prop) [Decidable c] (slots : List Slot) : List Slot :=
  slots.map fun s => (s.1, if c then s.2 else none)

def fieldStr (name : String) (s : List Byte) : Slot := (name, some (.str s))
def fieldU32 (name : String) (n : Nat) : Slot := (name, some (.u32 n))
def fieldU64 (name : String) (n : Nat) : Slot := (name, some (.u64 n))
def fieldF32 (name : String) (v : CFloat) : Slot := (name, some (.f32 v))
def fieldF64 (name : String) (v : CFloat) : Slot := (name, some (.f64 v))
def fieldBool (name : String) (b : Bool) : Slot := (name, some (.bool b))

def written (slots : List Slot) : List (String × Value) :=
  slots.filterMap fun s => s.2.map fun v => (s.1, v)

def scalars (slots : List Slot) : List Field := (written slots).map fun m => .scalar m.1 m.2

/-! ## The station -/

structure Fix where
  lat : CFloat
  lon : CFloat
  altM : CFloat

/-- `opt_station_id`, and the position of the station when it is fresh. -/
structure Station where
  id : Option (List Byte) := none
  fix : Option Fix := none

def stationSlots (station : Station) (ts : CFloat) : List Slot :=
  [ ("station", station.id.map .str),
    fieldF64 "ts" ts,
    ("station_lat", station.fix.map fun f => .f64 f.lat),
    ("station_lon", station.fix.map fun f => .f64 f.lon),
    ("station_alt_m", (station.fix.filter fun f => !isZero f.altM).map fun f => .f32 f.altM) ]

/-! ## The serialiser -/

def nodeId (n : BitVec 32) : List Byte := 0x21 :: hexPadded 8 n.toNat

def pubkeyId (key : List Byte) : BitVec 32 :=
  key.getD 0 0 ++ key.getD 1 0 ++ key.getD 2 0 ++ key.getD 3 0

def ctlSubtype (ev : RadioEvent) : List Byte := cString (ascii ev.mcCtlSubtype)

def discoverReq : List Byte := ascii "NODE_DISCOVER_REQ"

def discoverResp : List Byte := ascii "NODE_DISCOVER_RESP"

def mcDeriveFromId (ev : RadioEvent) : BitVec 32 :=
  if ev.mcPayloadType = .advert ∨ ev.mcPayloadType = .anonReq ∨
      (ev.mcPayloadType = .control ∧ ev.decrypted ∧ ctlSubtype ev = discoverResp) then
    pubkeyId ev.mcPubkey
  else if ev.mcPayloadType = .grpTxt ∨ ev.mcPayloadType = .grpData then
    0x80000000 ||| ev.mcChannelHash.setWidth 32
  else if ev.mcDestHash ≠ 0 ∨ ev.mcSrcHash ≠ 0 then
    0x40000000 ||| ev.mcDestHash.setWidth 32 <<< 8 ||| ev.mcSrcHash.setWidth 32
  else 0

def routeTypeName : RouteType → String
  | .transportFlood => "transport_flood"
  | .flood => "flood"
  | .direct => "direct"
  | .transportDirect => "transport_direct"

def advTypeName (n : Byte) : String :=
  ["NONE", "CHAT", "REPEATER", "ROOM", "SENSOR"].getD n.toNat "UNKNOWN"

def txtTypeName (n : Byte) : String := ["PLAIN", "CLI_DATA", "SIGNED_PLAIN"].getD n.toNat "UNKNOWN"

def hexTable (table : List Byte) (n : Nat) : List Byte :=
  (List.range n).flatMap fun k => hexByte (table.getD k 0)

def pathSlots (ev : RadioEvent) : List Slot :=
  onlyIf (ev.mcPayloadType = .trace ∧ ev.decrypted ∧ 0 < ev.mcPathHopCount)
    [ fieldStr "trace_route_hashes_hex"
        (hexTable ev.mcPathHashes (min ev.mcPathHopCount maxPathSize)),
      fieldStr "trace_snrs_hex" (hexTable ev.mcPathSnrs (min ev.mcPathHopCount maxPathSize)) ] ++
  onlyIf (ev.mcPayloadType ≠ .trace ∧ 0 < ev.mcHdrPathHashCount)
    [ fieldU32 "route_path_hash_count" ev.mcHdrPathHashCount,
      fieldU32 "route_path_hash_size" ev.mcHdrPathHashSize,
      fieldStr "route_path_hex" (ev.mcHdrPath.flatMap hexByte) ]

def frameSlots (ev : RadioEvent) : List Slot :=
  [ fieldStr "protocol" (ascii "meshcore"),
    fieldStr "mc_type" (ascii (if ev.mcTypeName = "" then "UNKNOWN" else ev.mcTypeName)),
    fieldU32 "route_type" ev.mcRouteType.code.toNat,
    fieldStr "route_type_name" (ascii (routeTypeName ev.mcRouteType)) ] ++
  onlyIf ev.mcHasRegionScope
    ([ fieldBool "region_scope" true,
       fieldU32 "region_code1" ev.mcRegionCode1.toNat,
       fieldU32 "region_code2" ev.mcRegionCode2.toNat ] ++
     onlyIf (cString ev.mcRegionName ≠ []) [fieldStr "region_name" ev.mcRegionName]) ++
  pathSlots ev ++
  [ fieldU32 "payload_type" ev.mcPayloadType.code.toNat,
    fieldU32 "payload_ver" ev.mcPayloadVer.toNat,
    fieldBool "decrypted" ev.decrypted ]

def identitySlots (ev : RadioEvent) : List Slot :=
  onlyIf (mcDeriveFromId ev ≠ 0) [fieldStr "from" (nodeId (mcDeriveFromId ev))]

def receptionSlots (ev : RadioEvent) : List Slot :=
  onlyIf (0 ≤ ev.slotId) [fieldU32 "slot_id" ev.slotId.toNat] ++
  onlyIf (!isZero ev.rssiDb) [fieldF32 "rssi_db" ev.rssiDb] ++
  onlyIf (ev.snrDb ≠ 0) [fieldF32 "snr_db" (.ofRat ev.snrDb)] ++
  onlyIf ev.hasCrc
    ([fieldBool "payload_crc_ok" ev.payloadCrcOk] ++
     onlyIf (ev.payloadCrcOk ∧ ev.crcCorrected)
       [ fieldBool "crc_corrected" true,
         fieldU32 "crc_corrected_bits" ev.crcCorrectedBits ]) ++
  onlyIf (0 < ev.sf)
    ([ fieldU32 "sf" ev.sf, fieldU32 "cr" ev.cr, fieldU32 "bw_hz" ev.bwHz ] ++
     onlyIf (ev.freqHz ≠ 0) [fieldU64 "freq_hz" ev.freqHz.toNat])

def addressSlots (ev : RadioEvent) : List Slot :=
  onlyIf (cString ev.channelName ≠ []) [fieldStr "channel_name" (cString ev.channelName)] ++
  onlyIf (ev.mcChannelHash ≠ 0) [fieldU32 "channel_hash" ev.mcChannelHash.toNat] ++
  onlyIf (ev.mcDestHash ≠ 0) [fieldU32 "dest_hash" ev.mcDestHash.toNat] ++
  onlyIf (ev.mcSrcHash ≠ 0) [fieldU32 "src_hash" ev.mcSrcHash.toNat] ++
  onlyIf (ev.mcTimestamp ≠ 0) [fieldU32 "mc_timestamp" ev.mcTimestamp.toNat]

def rawSlots (ev : RadioEvent) : List Slot :=
  onlyIf (cString ev.rawHex ≠ []) [fieldStr "raw_hex" ev.rawHex]

/-- The fields of the payload that stand behind `decrypted`. -/
def payloadSlots (ev : RadioEvent) : List Slot :=
  onlyIf (ev.decrypted ∧ ev.mcPayloadType = .advert)
    ([ fieldU32 "adv_type" ev.mcAdvType.toNat,
       fieldStr "adv_type_name" (ascii (advTypeName ev.mcAdvType)) ] ++
     onlyIf ev.mcHasLatlon
       [fieldF64 "lat" (.ofRat ev.mcLat), fieldF64 "lon" (.ofRat ev.mcLon)] ++
     onlyIf (ev.mcExtra1 ≠ 0) [fieldU32 "extra1" ev.mcExtra1.toNat] ++
     onlyIf (ev.mcExtra2 ≠ 0) [fieldU32 "extra2" ev.mcExtra2.toNat]) ++
  onlyIf (ev.decrypted ∧ cString ev.mcNodeName ≠ [])
    [fieldStr "node_name" ev.mcNodeName, fieldStr "long_name" ev.mcNodeName] ++
  onlyIf (ev.decrypted ∧ cString ev.mcText ≠ []) [fieldStr "text" ev.mcText] ++
  onlyIf (ev.decrypted ∧ ev.mcPayloadType = .grpTxt)
    [ fieldU32 "txt_type" ev.mcTxtType.toNat,
      fieldStr "txt_type_name" (ascii (txtTypeName ev.mcTxtType)) ] ++
  onlyIf (ev.decrypted ∧ 0 < ev.mcPathHopCount) [fieldU32 "path_hop_count" ev.mcPathHopCount] ++
  onlyIf (ev.decrypted ∧ ev.mcPayloadType = .advert) [fieldBool "sig_valid" ev.mcSigValid] ++
  onlyIf (ev.mcPayloadType = .grpData ∧ ev.decrypted)
    [fieldU32 "data_type" ev.mcDataType.toNat, fieldU32 "data_len" ev.mcDataLen.toNat]

def telemetryField (ev : RadioEvent) : List Field :=
  if ev.mcPayloadType = .grpData ∧ ev.decrypted then [.raw "telemetry" ev.mcTelemetryJson] else []

def controlSlots (ev : RadioEvent) : List Slot :=
  onlyIf (ev.mcPayloadType = .multipart)
    ([ fieldU32 "multipart_remaining" ev.mcMultipartRemaining.toNat,
       fieldStr "multipart_inner_type" (ascii ev.mcMultipartInnerType.name) ] ++
     onlyIf ev.decrypted [fieldU32 "ack_crc" ev.mcTimestamp.toNat]) ++
  onlyIf (ev.mcPayloadType = .control ∧ ctlSubtype ev ≠ [])
    ([ fieldStr "ctl_subtype" (ctlSubtype ev),
       fieldU32 "ctl_tag" ev.mcCtlTag.toNat ] ++
     onlyIf (ctlSubtype ev = discoverReq)
       ([fieldU32 "ctl_filter" ev.mcCtlFilter.toNat] ++
        onlyIf (ev.mcCtlSince ≠ 0) [fieldU32 "ctl_since" ev.mcCtlSince.toNat]) ++
     onlyIf (ctlSubtype ev = discoverResp)
       [ fieldU32 "adv_type" ev.mcAdvType.toNat,
         fieldStr "adv_type_name" (ascii (advTypeName ev.mcAdvType)),
         fieldF32 "ctl_snr" (.ofRat ev.mcCtlSnr) ])

def meshcoreFields (station : Station) (ts : CFloat) (ev : RadioEvent) : List Field :=
  scalars (stationSlots station ts ++ frameSlots ev ++ identitySlots ev ++ receptionSlots ev ++
    addressSlots ev ++ rawSlots ev ++ payloadSlots ev) ++
  telemetryField ev ++ scalars (controlSlots ev)

/-- `ts` is the time it settles on. -/
def feedSerializeEventMeshcore (j : Jw) (station : Station) (ts : CFloat) (ev : RadioEvent) : Jw :=
  jwObject j (meshcoreFields station ts ev)

/-! ## Reading slots back -/

theorem written_append (s t : List Slot) : written (s ++ t) = written s ++ written t :=
  filterMap_append

theorem written_onlyIf_not {c : Prop} [Decidable c] (h : ¬c) (slots : List Slot) :
    written (onlyIf c slots) = [] := by
  rw [written, onlyIf, filterMap_map, filterMap_eq_nil_iff]
  intro s _
  simp [h]

theorem scalars_append (s t : List Slot) : scalars (s ++ t) = scalars s ++ scalars t := by
  rw [scalars, written_append, map_append]
  rfl

def slotText (s : Slot) : String × Option (List Byte) := (s.1, s.2.map Value.text)

theorem members_scalars_cons (name : String) (value : Option Value) (slots : List Slot) :
    members (scalars ((name, value) :: slots)) =
      (value.map fun v => memberOf (name, v)).toList ++ members (scalars slots) := by
  cases value with
  | none => rfl
  | some v => rfl

theorem exists_name_of_mem_members {slots : List Slot} {m : List Byte × List Byte}
    (hm : m ∈ members (scalars slots)) : ∃ s ∈ slots, m.1 = escape (ascii s.1) := by
  induction slots with
  | nil => cases hm
  | cons s slots ih =>
    obtain ⟨name, value⟩ := s
    rw [members_scalars_cons] at hm
    rcases mem_append.mp hm with hm | hm
    · obtain ⟨v, -, rfl⟩ := Option.map_eq_some_iff.mp (Option.mem_toList.mp hm)
      exact ⟨_, mem_cons_self, rfl⟩
    · obtain ⟨s, hs, hname⟩ := ih hm
      exact ⟨s, mem_cons_of_mem _ hs, hname⟩

/-- **Readback.** Slots with the same distinct names that write the same
members hold the same texts. -/
theorem slots_readback {s s' : List Slot} (hnames : s.map Prod.fst = s'.map Prod.fst)
    (hnodup : (s.map fun x => escape (ascii x.1)).Nodup)
    (h : members (scalars s) = members (scalars s')) : s.map slotText = s'.map slotText := by
  induction s generalizing s' with
  | nil =>
    cases s' with
    | nil => rfl
    | cons x s' => cases hnames
  | cons x s ih =>
    cases s' with
    | nil => cases hnames
    | cons x' s' =>
      obtain ⟨name, value⟩ := x
      obtain ⟨name', value'⟩ := x'
      obtain ⟨rfl, htail⟩ := cons.inj hnames
      obtain ⟨hfresh, hnodup⟩ := nodup_cons.mp hnodup
      -- the name of this slot is not written by the slots behind it
      have habsent : ∀ text, (escape (ascii name), text) ∉ members (scalars s) := by
        intro text hm
        obtain ⟨y, hy, hname⟩ := exists_name_of_mem_members hm
        exact hfresh (mem_map.mpr ⟨y, hy, hname.symm⟩)
      have habsent' : ∀ text, (escape (ascii name), text) ∉ members (scalars s') := by
        intro text hm
        obtain ⟨y, hy, hname⟩ := exists_name_of_mem_members hm
        have hmem : y.1 ∈ s.map Prod.fst := htail ▸ mem_map_of_mem hy
        obtain ⟨z, hz, hzy⟩ := mem_map.mp hmem
        exact hfresh (mem_map.mpr ⟨z, hz, by rw [hzy]; exact hname.symm⟩)
      rw [members_scalars_cons, members_scalars_cons] at h
      have hmore : value.map Value.text = value'.map Value.text ∧
          members (scalars s) = members (scalars s') := by
        cases value with
        | none =>
          cases value' with
          | none => exact ⟨rfl, h⟩
          | some v' =>
            refine absurd ?_ (habsent v'.text)
            have h : members (scalars s) = _ := h
            rw [h]
            exact mem_cons_self
        | some v =>
          cases value' with
          | none =>
            refine absurd ?_ (habsent' v.text)
            have h : _ = members (scalars s') := h
            rw [← h]
            exact mem_cons_self
          | some v' =>
            obtain ⟨hm, hrest⟩ := cons.inj h
            exact ⟨congrArg some (congrArg Prod.snd hm), hrest⟩
      rw [map_cons, map_cons, ih htail hnodup hmore.2, slotText,
        slotText, hmore.1]

/-! ## Frames whose CRC failed -/

structure SameFrame (ev ev' : RadioEvent) : Prop where
  slotId : ev.slotId = ev'.slotId
  rssiDb : ev.rssiDb = ev'.rssiDb
  snrDb : ev.snrDb = ev'.snrDb
  sf : ev.sf = ev'.sf
  cr : ev.cr = ev'.cr
  bwHz : ev.bwHz = ev'.bwHz
  freqHz : ev.freqHz = ev'.freqHz
  hasCrc : ev.hasCrc = ev'.hasCrc
  payloadCrcOk : ev.payloadCrcOk = ev'.payloadCrcOk
  crcCorrected : ev.crcCorrected = ev'.crcCorrected
  crcCorrectedBits : ev.crcCorrectedBits = ev'.crcCorrectedBits
  rawHex : ev.rawHex = ev'.rawHex
  routeType : ev.mcRouteType = ev'.mcRouteType
  payloadType : ev.mcPayloadType = ev'.mcPayloadType
  payloadVer : ev.mcPayloadVer = ev'.mcPayloadVer
  typeName : ev.mcTypeName = ev'.mcTypeName
  hdrPathHashCount : ev.mcHdrPathHashCount = ev'.mcHdrPathHashCount
  hdrPathHashSize : ev.mcHdrPathHashSize = ev'.mcHdrPathHashSize
  hdrPath : ev.mcHdrPath = ev'.mcHdrPath
  hasRegionScope : ev.mcHasRegionScope = ev'.mcHasRegionScope
  regionCode1 : ev.mcRegionCode1 = ev'.mcRegionCode1
  regionCode2 : ev.mcRegionCode2 = ev'.mcRegionCode2
  regionName : ev.mcRegionName = ev'.mcRegionName

structure SameControl (ev ev' : RadioEvent) : Prop where
  subtype : ctlSubtype ev = ctlSubtype ev'
  tag : ctlSubtype ev ≠ [] → ev.mcCtlTag = ev'.mcCtlTag
  filter : ctlSubtype ev = discoverReq → ev.mcCtlFilter = ev'.mcCtlFilter
  since : ctlSubtype ev = discoverReq → ev.mcCtlSince = ev'.mcCtlSince
  advType : ctlSubtype ev = discoverResp → ev.mcAdvType = ev'.mcAdvType
  snr : ctlSubtype ev = discoverResp →
    (CFloat.ofRat ev.mcCtlSnr).fixed 4 = (CFloat.ofRat ev'.mcCtlSnr).fixed 4

/-- The two events agree on the fields written without regard to `decrypted`. -/
structure SameUngated (ev ev' : RadioEvent) : Prop where
  channelName : cString ev.channelName = cString ev'.channelName
  channelHash : ev.mcChannelHash = ev'.mcChannelHash
  destHash : ev.mcDestHash = ev'.mcDestHash
  srcHash : ev.mcSrcHash = ev'.mcSrcHash
  timestamp : ev.mcTimestamp = ev'.mcTimestamp
  pubkey : ev.mcPayloadType = .advert ∨ ev.mcPayloadType = .anonReq →
    pubkeyId ev.mcPubkey = pubkeyId ev'.mcPubkey
  multipart : ev.mcPayloadType = .multipart →
    ev.mcMultipartRemaining = ev'.mcMultipartRemaining ∧
      ascii ev.mcMultipartInnerType.name = ascii ev'.mcMultipartInnerType.name
  control : ev.mcPayloadType = .control → SameControl ev ev'

def untrustedSlots (station : Station) (ts : CFloat) (ev : RadioEvent) : List Slot :=
  stationSlots station ts ++ frameSlots ev ++ identitySlots ev ++ receptionSlots ev ++
    addressSlots ev ++ rawSlots ev ++ controlSlots ev

variable {s s' : List Byte} {ev ev' : RadioEvent} {station : Station} {ts : CFloat}

theorem meshcoreFields_untrusted (station : Station) (ts : CFloat) (h : ev.decrypted = false) :
    meshcoreFields station ts ev = scalars (untrustedSlots station ts ev) := by
  have hpayload : scalars (payloadSlots ev) = [] := by
    have hoff : ∀ (c : Prop) [Decidable c] (slots : List Slot), (c → ev.decrypted = true) →
        written (onlyIf c slots) = [] := by
      intro c _ slots hc
      refine written_onlyIf_not (fun hyes => ?_) slots
      rw [hc hyes] at h
      cases h
    simp only [scalars, payloadSlots, written_append, map_eq_nil_iff, append_eq_nil_iff]
    exact ⟨⟨⟨⟨⟨⟨hoff _ _ And.left, hoff _ _ And.left⟩, hoff _ _ And.left⟩, hoff _ _ And.left⟩,
      hoff _ _ And.left⟩, hoff _ _ And.left⟩, hoff _ _ And.right⟩
  have htelemetry : telemetryField ev = [] := if_neg (by simp [h])
  simp only [meshcoreFields, untrustedSlots, scalars_append, hpayload, htelemetry, append_nil]

def untrustedNames : List String :=
  [ "station", "ts", "station_lat", "station_lon", "station_alt_m", "protocol", "mc_type",
    "route_type", "route_type_name", "region_scope", "region_code1", "region_code2", "region_name",
    "trace_route_hashes_hex", "trace_snrs_hex", "route_path_hash_count", "route_path_hash_size",
    "route_path_hex", "payload_type", "payload_ver", "decrypted", "from", "slot_id", "rssi_db",
    "snr_db", "payload_crc_ok", "crc_corrected", "crc_corrected_bits", "sf", "cr", "bw_hz",
    "freq_hz", "channel_name", "channel_hash", "dest_hash", "src_hash", "mc_timestamp", "raw_hex",
    "multipart_remaining", "multipart_inner_type", "ack_crc", "ctl_subtype", "ctl_tag",
    "ctl_filter", "ctl_since", "adv_type", "adv_type_name", "ctl_snr" ]

theorem untrustedSlots_names (station : Station) (ts : CFloat) (ev : RadioEvent) :
    (untrustedSlots station ts ev).map Prod.fst = untrustedNames := rfl

theorem untrustedNames_nodup : (untrustedNames.map fun name => escape (ascii name)).Nodup := by
  simp only [untrustedNames, map_cons, map_nil]
  repeat rw [ascii_ofList]
  decide

theorem untrustedSlots_eq (station : Station) (ts : CFloat) (hframe : SameFrame ev ev')
    (hoff : ev.decrypted = false) (hoff' : ev'.decrypted = false) :
    stationSlots station ts ++ frameSlots ev = stationSlots station ts ++ frameSlots ev' ∧
      receptionSlots ev = receptionSlots ev' ∧ rawSlots ev = rawSlots ev' := by
  refine ⟨?_, ?_, ?_⟩
  · simp only [frameSlots, pathSlots, hframe.typeName, hframe.routeType, hframe.hasRegionScope,
      hframe.regionCode1, hframe.regionCode2, hframe.regionName, hframe.payloadType,
      hframe.payloadVer, hframe.hdrPathHashCount, hframe.hdrPathHashSize, hframe.hdrPath, hoff,
      hoff']
    simp [onlyIf, fieldStr]
  · simp only [receptionSlots, hframe.slotId, hframe.rssiDb, hframe.snrDb, hframe.hasCrc,
      hframe.payloadCrcOk, hframe.crcCorrected, hframe.crcCorrectedBits, hframe.sf, hframe.cr,
      hframe.bwHz, hframe.freqHz]
  · simp only [rawSlots, hframe.rawHex]

/-! ### What agrees is written alike -/

def Slot.run (s : Slot) (j : Jw) : Jw := (s.2.map (jwField j s.1)).getD j

theorem run_none (name : String) : Slot.run (name, none) = id := rfl

theorem run_f32 (name : String) (v : CFloat) :
    Slot.run (name, some (.f32 v)) = fun j => jwPrintf (jwFieldName j name) (v.fixed 4) := rfl

theorem foldl_scalars (slots : List Slot) (j : Jw) :
    (scalars slots).foldl jwCall j = (slots.map Slot.run).foldl (fun j f => f j) j := by
  induction slots generalizing j with
  | nil => rfl
  | cons s slots ih =>
    obtain ⟨name, value⟩ := s
    cases value with
    | none => exact ih j
    | some v => exact ih (jwField j name v)

theorem identitySlots_eq (hframe : SameFrame ev ev') (hoff : ev.decrypted = false)
    (hoff' : ev'.decrypted = false) (h : SameUngated ev ev') :
    identitySlots ev = identitySlots ev' := by
  have hid : mcDeriveFromId ev = mcDeriveFromId ev' := by
    unfold mcDeriveFromId
    rw [← hframe.payloadType, ← h.channelHash, ← h.destHash, ← h.srcHash, hoff, hoff']
    simp only [Bool.false_eq_true, false_and, and_false, or_false]
    split
    next hkey => exact h.pubkey hkey
    next => rfl
  rw [identitySlots, identitySlots, hid]

theorem addressSlots_eq (h : SameUngated ev ev') : addressSlots ev = addressSlots ev' := by
  unfold addressSlots
  rw [h.channelName, h.channelHash, h.destHash, h.srcHash, h.timestamp]

theorem controlSlots_run (hframe : SameFrame ev ev') (hoff : ev.decrypted = false)
    (hoff' : ev'.decrypted = false) (h : SameUngated ev ev') :
    (controlSlots ev).map Slot.run = (controlSlots ev').map Slot.run := by
  simp only [controlSlots, ← hframe.payloadType, hoff, hoff', map_append]
  congr 1
  · by_cases hm : ev.mcPayloadType = .multipart
    · obtain ⟨hremaining, hinner⟩ := h.multipart hm
      rw [hremaining, hinner]
      simp [onlyIf, run_none, fieldU32]
    · simp [onlyIf, hm, run_none]
  · by_cases hc : ev.mcPayloadType = .control
    · obtain ⟨hsub, htag, hfilter, hsince, hadv, hsnr⟩ := h.control hc
      rw [← hsub]
      by_cases hempty : ctlSubtype ev = []
      · simp [onlyIf, hempty, run_none]
      rw [htag hempty]
      by_cases hreq : ctlSubtype ev = discoverReq
      · rw [hfilter hreq, hsince hreq]
        have hother : discoverReq ≠ discoverResp := by decide
        simp [onlyIf, hreq, hother, run_none]
      by_cases hresp : ctlSubtype ev = discoverResp
      · have hother : discoverResp ≠ discoverReq := by decide
        have hne : discoverResp ≠ [] := by decide
        simp [onlyIf, hc, hresp, hother, hne, hadv hresp, run_none, fieldF32, run_f32, hsnr hresp]
      · simp [onlyIf, hreq, hresp, run_none]
    · simp [onlyIf, hc, run_none]

/-- **Agreement.** Two untrusted events that agree on the frame and the ungated fields write the
same line. -/
theorem untrusted_json_eq (j : Jw) (station : Station) (ts : CFloat) (hframe : SameFrame ev ev')
    (hoff : ev.decrypted = false) (hoff' : ev'.decrypted = false) (h : SameUngated ev ev') :
    feedSerializeEventMeshcore j station ts ev = feedSerializeEventMeshcore j station ts ev' := by
  obtain ⟨hhead, hreception, hraw⟩ := untrustedSlots_eq station ts hframe hoff hoff'
  have hrun : (untrustedSlots station ts ev).map Slot.run =
      (untrustedSlots station ts ev').map Slot.run := by
    rw [untrustedSlots, untrustedSlots, hhead, hreception, hraw,
      identitySlots_eq hframe hoff hoff' h, addressSlots_eq h, map_append,
      controlSlots_run hframe hoff hoff' h, ← map_append]
  rw [feedSerializeEventMeshcore, feedSerializeEventMeshcore, jwObject, jwObject,
    meshcoreFields_untrusted station ts hoff, meshcoreFields_untrusted station ts hoff',
    foldl_scalars, foldl_scalars, hrun]

/-! ### What is written alike agrees -/

def meshcoreText (station : Station) (ts : CFloat) (ev : RadioEvent) : List Byte :=
  objectText (members (meshcoreFields station ts ev))

theorem members_flat (slots : List Slot) :
    ∀ m ∈ members (scalars slots), Transparent m.1 ∧ Flat m.2 := by
  induction slots with
  | nil => exact fun m hm => absurd hm not_mem_nil
  | cons s slots ih =>
    intro m hm
    rw [members_scalars_cons s.1 s.2] at hm
    rcases mem_append.mp hm with hm | hm
    · obtain ⟨v, -, rfl⟩ := Option.map_eq_some_iff.mp (Option.mem_toList.mp hm)
      exact ⟨escape_transparent _, v.flat_text⟩
    · exact ih m hm

theorem untrusted_readback (station : Station) (ts : CFloat) (hoff : ev.decrypted = false)
    (hoff' : ev'.decrypted = false) (h : meshcoreText station ts ev = meshcoreText station ts ev') :
    (untrustedSlots station ts ev).map slotText = (untrustedSlots station ts ev').map slotText := by
  rw [meshcoreText, meshcoreText, meshcoreFields_untrusted station ts hoff,
    meshcoreFields_untrusted station ts hoff'] at h
  refine slots_readback ?_ ?_ (objectText_injective (members_flat _) (members_flat _) h)
  · rw [untrustedSlots_names, untrustedSlots_names]
  · have hnames := untrustedNames_nodup
    rwa [← untrustedSlots_names station ts ev, map_map] at hnames

theorem nonzero_readback {w : Nat} {n n' : BitVec w}
    (h : (if n ≠ 0 then some (decimal n.toNat) else none) =
      if n' ≠ 0 then some (decimal n'.toNat) else none) : n = n' := by
  by_cases hn : n = 0 <;> by_cases hn' : n' = 0
  · rw [hn, hn']
  · exact absurd (by simpa [hn] using h) hn'
  · exact absurd (by simpa [hn'] using h) hn
  · simp only [hn, hn', ne_eq, not_false_eq_true, if_true, Option.some.injEq] at h
    exact BitVec.eq_of_toNat_eq (decimal_injective h)

theorem block_lengths (station : Station) (ts : CFloat) (ev : RadioEvent) :
    (stationSlots station ts).length = 5 ∧ (frameSlots ev).length = 16 ∧
      (identitySlots ev).length = 1 ∧ (receptionSlots ev).length = 10 ∧
      (addressSlots ev).length = 5 ∧ (rawSlots ev).length = 1 :=
  ⟨rfl, rfl, rfl, rfl, rfl, rfl⟩

theorem cString_nodeId (n : BitVec 32) : cString (nodeId n) = nodeId n := by
  have hdigit : ∀ d < 16, hexDigit d ≠ 0 := by decide
  refine takeWhile_eq_self_iff.mpr fun c hc => ?_
  rw [bne_iff_ne]
  rcases mem_cons.mp hc with rfl | hc
  · decide
  · obtain ⟨d, hd, rfl⟩ := mem_hexPadded hc
    exact hdigit d hd

theorem untrusted_blocks
    (h : (untrustedSlots station ts ev).map slotText = (untrustedSlots station ts ev').map slotText) :
    (identitySlots ev).map slotText = (identitySlots ev').map slotText ∧
      (addressSlots ev).map slotText = (addressSlots ev').map slotText ∧
      (controlSlots ev).map slotText = (controlSlots ev').map slotText := by
  obtain ⟨-, hf, hi, hr, ha, hw⟩ := block_lengths station ts ev
  obtain ⟨-, hf', hi', hr', ha', hw'⟩ := block_lengths station ts ev'
  simp only [untrustedSlots, map_append] at h
  obtain ⟨h, hcontrol⟩ := append_inj h (by simp [hf, hi, hr, ha, hw, hf', hi', hr', ha', hw'])
  obtain ⟨h, -⟩ := append_inj h (by simp [hf, hi, hr, ha, hf', hi', hr', ha'])
  obtain ⟨h, haddress⟩ := append_inj h (by simp [hf, hi, hr, hf', hi', hr'])
  obtain ⟨h, -⟩ := append_inj h (by simp [hf, hi, hf', hi'])
  obtain ⟨-, hidentity⟩ := append_inj h (by simp [hf, hf'])
  exact ⟨hidentity, haddress, hcontrol⟩

theorem onlyIf_text (c : Prop) [Decidable c] (slots : List Slot) :
    (onlyIf c slots).map slotText =
      (slots.map slotText).map fun s => (s.1, if c then s.2 else none) := by
  rw [onlyIf, map_map, map_map]
  refine map_congr_left fun s _ => ?_
  by_cases h : c <;> simp [slotText, h]

theorem string_readback (h : quoted (escape s) = quoted (escape s')) : cString s = cString s' :=
  escape_injective (quoted_cancel (escape_transparent s) (escape_transparent s')
    (congrArg (· ++ []) h)).1

theorem cString_cString (s : List Byte) : cString (cString s) = cString s := by
  refine takeWhile_eq_self_iff.mpr fun c hc => ?_
  exact mem_takeWhile_imp (p := (· != 0)) hc

theorem text_readback
    (h : (if cString s ≠ [] then some (quoted (escape (cString s))) else none) = if cString s' ≠ [] then some (quoted (escape (cString s'))) else none) :
    cString s = cString s' := by
  by_cases hne : cString s = [] <;> by_cases hne' : cString s' = []
  · rw [hne, hne']
  · exact absurd (by simpa [hne] using h) hne'
  · exact absurd (by simpa [hne'] using h) hne
  · rw [if_pos hne, if_pos hne'] at h
    have hbody := string_readback (Option.some.inj h)
    rwa [cString_cString, cString_cString] at hbody

theorem fromId_readback (h : (identitySlots ev).map slotText = (identitySlots ev').map slotText) :
    mcDeriveFromId ev = mcDeriveFromId ev' := by
  rw [identitySlots, identitySlots, onlyIf_text, onlyIf_text] at h
  have hslot := (Prod.mk.inj (cons.inj h).1).2
  by_cases hid : mcDeriveFromId ev = 0 <;> by_cases hid' : mcDeriveFromId ev' = 0
  · rw [hid, hid']
  · exact absurd (by simpa [hid, fieldStr, slotText] using hslot) hid'
  · exact absurd (by simpa [hid', fieldStr, slotText] using hslot) hid
  · rw [if_pos hid, if_pos hid'] at hslot
    have hdigits := string_readback (Option.some.inj hslot)
    rw [cString_nodeId, cString_nodeId] at hdigits
    exact BitVec.eq_of_toNat_eq (hexPadded_injective (BitVec.isLt _) (BitVec.isLt _)
      (cons.inj hdigits).2)

theorem address_readback (h : (addressSlots ev).map slotText = (addressSlots ev').map slotText) :
    cString ev.channelName = cString ev'.channelName ∧ ev.mcChannelHash = ev'.mcChannelHash ∧
      ev.mcDestHash = ev'.mcDestHash ∧ ev.mcSrcHash = ev'.mcSrcHash ∧
      ev.mcTimestamp = ev'.mcTimestamp := by
  simp only [addressSlots, map_append, onlyIf_text, map_cons, map_nil,
    cons_append, nil_append, slotText, fieldStr, fieldU32, Option.map_some, Value.text,
    cons.injEq, Prod.mk.injEq, true_and, and_true] at h
  obtain ⟨hname, hchannel, hdest, hsrc, htime⟩ := h
  exact ⟨text_readback hname, nonzero_readback hchannel, nonzero_readback hdest,
    nonzero_readback hsrc, nonzero_readback htime⟩

theorem multipart_readback (hm : ev.mcPayloadType = .multipart)
    (hm' : ev'.mcPayloadType = .multipart)
    (h : (controlSlots ev).map slotText = (controlSlots ev').map slotText) :
    ev.mcMultipartRemaining = ev'.mcMultipartRemaining ∧
      ascii ev.mcMultipartInnerType.name = ascii ev'.mcMultipartInnerType.name := by
  simp only [controlSlots, hm, hm', map_append, onlyIf_text, map_cons, map_nil,
    cons_append, nil_append, slotText, fieldStr, fieldU32, Option.map_some, Value.text,
    cons.injEq, Prod.mk.injEq, true_and, if_true, Option.some.injEq] at h
  obtain ⟨hremaining, hinner, -⟩ := h
  have hname : ∀ t : PayloadType, cString (ascii t.name) = ascii t.name := by
    intro t
    cases t with
    | unassigned n =>
      revert n
      decide
    | _ => decide
  refine ⟨BitVec.eq_of_toNat_eq (decimal_injective hremaining), ?_⟩
  have hbody := string_readback hinner
  rwa [hname, hname] at hbody

theorem control_readback (hc : ev.mcPayloadType = .control) (hc' : ev'.mcPayloadType = .control)
    (h : (controlSlots ev).map slotText = (controlSlots ev').map slotText) :
    SameControl ev ev' := by
  simp only [controlSlots, hc, hc', map_append, onlyIf_text, map_cons, map_nil,
    cons_append, nil_append, slotText, fieldStr, fieldU32, fieldF32, Option.map_some,
    Value.text, cons.injEq, Prod.mk.injEq, true_and, and_true] at h
  obtain ⟨-, -, -, hsub, htag, hfilter, hsince, hadv, -, hsnr⟩ := h
  have hsame : ctlSubtype ev = ctlSubtype ev' := text_readback hsub
  have hreq : discoverReq ≠ [] := by decide
  have hresp : discoverResp ≠ [] := by decide
  rw [← hsame] at htag hfilter hsince hadv hsnr
  refine ⟨hsame, ?_, ?_, ?_, ?_, ?_⟩
  · intro hne
    rw [if_pos hne, if_pos hne] at htag
    exact BitVec.eq_of_toNat_eq (decimal_injective (Option.some.inj htag))
  · intro heq
    simp only [heq, hreq, ne_eq, not_false_eq_true, if_true, Option.some.injEq] at hfilter
    exact BitVec.eq_of_toNat_eq (decimal_injective hfilter)
  · intro heq
    rw [heq, if_pos hreq, if_pos rfl, if_pos hreq, if_pos rfl] at hsince
    exact nonzero_readback hsince
  · intro heq
    simp only [heq, hresp, ne_eq, not_false_eq_true, if_true, Option.some.injEq] at hadv
    exact BitVec.eq_of_toNat_eq (decimal_injective hadv)
  · intro heq
    simpa only [heq, hresp, ne_eq, not_false_eq_true, if_true, Option.some.injEq] using hsnr

theorem untrusted_shows (hframe : SameFrame ev ev') (hoff : ev.decrypted = false)
    (hoff' : ev'.decrypted = false) (h : meshcoreText station ts ev = meshcoreText station ts ev') :
    SameUngated ev ev' := by
  obtain ⟨hidentity, haddress, hcontrol⟩ :=
    untrusted_blocks (untrusted_readback station ts hoff hoff' h)
  obtain ⟨hname, hchannel, hdest, hsrc, htime⟩ := address_readback haddress
  refine ⟨hname, hchannel, hdest, hsrc, htime, ?_, ?_, ?_⟩
  · intro hkey
    have hid := fromId_readback hidentity
    have hkey' := hkey
    rw [hframe.payloadType] at hkey'
    rw [mcDeriveFromId, mcDeriveFromId] at hid
    rwa [if_pos (by tauto), if_pos (by tauto)] at hid
  · exact fun hm => multipart_readback hm (hframe.payloadType ▸ hm) hcontrol
  · exact fun hc => control_readback hc (hframe.payloadType ▸ hc) hcontrol

def lineCap : Nat := 2048

/-- **Noninterference.** Two events that are not decrypted and agree on the frame are written alike
if they agree on the fields that no check of `decrypted` stands in front of; and where both texts
fit the buffer, only then. -/
theorem untrusted_json_iff (station : Station) (ts : CFloat) {ev ev' : RadioEvent}
    (hframe : SameFrame ev ev') (hoff : ev.decrypted = false) (hoff' : ev'.decrypted = false) :
    (SameUngated ev ev' → (feedSerializeEventMeshcore (jwInit lineCap) station ts ev).buf =
        (feedSerializeEventMeshcore (jwInit lineCap) station ts ev').buf) ∧
      ((meshcoreText station ts ev).length < lineCap →
        (meshcoreText station ts ev').length < lineCap →
        ((feedSerializeEventMeshcore (jwInit lineCap) station ts ev).buf =
          (feedSerializeEventMeshcore (jwInit lineCap) station ts ev').buf ↔ SameUngated ev ev')) := by
  have hagree := fun h => congrArg Jw.buf
    (untrusted_json_eq (jwInit lineCap) station ts hframe hoff hoff' h)
  refine ⟨hagree, fun hfit hfit' => ⟨fun heq => ?_, hagree⟩⟩
  rw [feedSerializeEventMeshcore, feedSerializeEventMeshcore, object_fits hfit, object_fits hfit']
    at heq
  exact untrusted_shows hframe hoff hoff' heq

def failedAck (checksum : BitVec 32) : RadioEvent where
  isMeshcore := true
  hasCrc := true
  sf := 8
  cr := 5
  bwHz := 62500
  mcRouteType := .flood
  mcPayloadType := .ack
  mcTypeName := "ACK"
  rawHex := ascii "0d00deadbeef"
  mcTimestamp := checksum

theorem failedAck_sameFrame (c c' : BitVec 32) : SameFrame (failedAck c) (failedAck c') :=
  ⟨rfl, rfl, rfl, rfl, rfl, rfl, rfl, rfl, rfl, rfl, rfl, rfl, rfl, rfl, rfl, rfl, rfl, rfl, rfl, rfl,
    rfl, rfl, rfl⟩

theorem failedAck_fits {c : BitVec 32} (h : c = 1 ∨ c = 2) :
    (meshcoreText {} (.fin false 0) (failedAck c)).length < lineCap := by
  rcases h with rfl | rfl <;> decide +kernel

/-- Two such frames that differ in nothing but the parsed checksum. -/
theorem failedAck_lines_differ :
    SameFrame (failedAck 1) (failedAck 2) ∧
      ((failedAck 1).hasCrc = true ∧ (failedAck 1).payloadCrcOk = false) ∧
      (failedAck 1).decrypted = false ∧ (failedAck 2).decrypted = false ∧
      (feedSerializeEventMeshcore (jwInit lineCap) {} (.fin false 0) (failedAck 1)).buf ≠
        (feedSerializeEventMeshcore (jwInit lineCap) {} (.fin false 0) (failedAck 2)).buf := by
  refine ⟨failedAck_sameFrame 1 2, ⟨rfl, rfl⟩, rfl, rfl, fun heq => ?_⟩
  rw [feedSerializeEventMeshcore, feedSerializeEventMeshcore, object_fits (failedAck_fits (.inl rfl)),
    object_fits (failedAck_fits (.inr rfl))] at heq
  exact absurd (untrusted_shows (failedAck_sameFrame 1 2) rfl rfl heq).timestamp (by decide)

theorem untrusted_json_iff_ack :
    (meshcoreText {} (.fin false 0) (failedAck 1)).length < lineCap ∧
      (meshcoreText {} (.fin false 0) (failedAck 2)).length < lineCap ∧
      ((feedSerializeEventMeshcore (jwInit lineCap) {} (.fin false 0) (failedAck 1)).buf =
        (feedSerializeEventMeshcore (jwInit lineCap) {} (.fin false 0) (failedAck 2)).buf ↔
          SameUngated (failedAck 1) (failedAck 2)) := by
  have hfit := failedAck_fits (.inl rfl)
  have hfit' := failedAck_fits (.inr rfl)
  exact ⟨hfit, hfit',
    (untrusted_json_iff {} (.fin false 0) (failedAck_sameFrame 1 2) rfl rfl).2 hfit hfit'⟩

end MeshcoreSniffer.Feed
