import MeshcoreSniffer.Feed.MeshcoreJson

/-!
# Meshtastic events as JSON

`serialize_event` of `feed.c`. Unlike the MeshCore serialiser, it puts a newline behind the object.
-/

namespace MeshcoreSniffer.Feed

open Lib Lib.Printf
open Lib.Json Meshcore
open Meshtastic

/-! ## Header and reception -/

def fieldsTrusted (ev : FeedEvent) : Bool :=
  (ev.hasCrc && ev.payloadCrcOk) || (!ev.hasCrc && ev.decrypted)

def exceeds100 : CFloat → Bool
  | .fin _ mag => 100 < mag
  | .inf _ => true
  | .nan _ => false

def headerSlots (ev : FeedEvent) : List Slot :=
  [ fieldStr "from" (nodeId ev.header.fromNode),
    fieldStr "to" (nodeId ev.header.toNode),
    fieldU32 "packet_id" ev.header.packetId.toNat,
    fieldU32 "channel_hash" ev.header.channel.toNat ] ++
  onlyIf (0 ≤ ev.slotId) [fieldU32 "slot_id" ev.slotId.toNat] ++
  [ fieldU32 "hop_limit" ev.hopLimit, fieldU32 "hop_start" ev.hopStart ] ++
  onlyIf (ev.header.relayNode ≠ 0) [fieldU32 "relay_node" ev.header.relayNode.toNat] ++
  onlyIf ev.wantAck [fieldBool "want_ack" true] ++
  onlyIf ev.viaMqtt [fieldBool "via_mqtt" true] ++
  onlyIf (!isZero ev.rssiDb) [fieldF32 "rssi_db" ev.rssiDb] ++
  onlyIf (ev.snrDb ≠ 0) [fieldF32 "snr_db" (.ofRat ev.snrDb)] ++
  onlyIf ev.hasCrc [fieldBool "payload_crc_ok" ev.payloadCrcOk] ++
  onlyIf (ev.hasCrc ∧ ev.payloadCrcOk ∧ ev.crcCorrected)
    [ fieldBool "crc_corrected" true, fieldU32 "crc_corrected_bits" ev.crcCorrectedBits ] ++
  [fieldBool "fields_trusted" (fieldsTrusted ev)] ++
  onlyIf (cString ev.rawHex ≠ []) [fieldStr "raw_hex" ev.rawHex] ++
  onlyIf (exceeds100 ev.cfoHz) [fieldF32 "cfo_hz" ev.cfoHz]

def timingSlots (station : Station) (ev : FeedEvent) : List Slot :=
  onlyIf (ev.stationTNs ≠ 0 ∧ station.id.isSome)
    ([ fieldU64 "station_t_ns" ev.stationTNs,
       fieldU32 "station_t_acc_ns" ev.stationTAccNs.toNat ] ++
     onlyIf (ev.preambleLockSampleIdx ≠ 0)
       ([fieldU64 "preamble_lock_sample_idx" ev.preambleLockSampleIdx.toNat] ++
        onlyIf (!isZero ev.preambleLockSampleFrac)
          [fieldF32 "preamble_lock_sample_frac" ev.preambleLockSampleFrac]) ++
     onlyIf (ev.sampleRateSps ≠ 0) [fieldU64 "sample_rate_sps" ev.sampleRateSps.toNat] ++
     onlyIf (ev.preambleLockTNs ≠ 0) [fieldU64 "preamble_lock_t_ns" ev.preambleLockTNs.toNat])

def channelSlots (ev : FeedEvent) : List Slot :=
  onlyIf (0 < ev.sf)
    ([ fieldU32 "sf" ev.sf, fieldU32 "cr" ev.cr, fieldU32 "bw_hz" ev.bwHz ] ++
     onlyIf (ev.freqHz ≠ 0) [fieldU64 "freq_hz" ev.freqHz.toNat] ++
     onlyIf (cString ev.presetName ≠ []) [fieldStr "preset" ev.presetName])

/-! ## Ports -/

def nonzeroU32 (name : String) (v : BitVec 32) : Slot :=
  (name, if v ≠ 0 then some (.u32 v.toNat) else none)

def nonzeroU64 (name : String) (v : BitVec 64) : Slot :=
  (name, if v ≠ 0 then some (.u64 v.toNat) else none)

def nonzeroI32 (name : String) (v : BitVec 32) : Slot :=
  (name, if v ≠ 0 then some (.i32 v.toInt) else none)

def nonemptyStr (name : String) (s : List Byte) : Slot :=
  (name, if startsText s then some (.str s) else none)

def optionU32 (name : String) (v : Option (BitVec 32)) : Slot := (name, v.map fun v => .u32 v.toNat)

def optionI32 (name : String) (v : Option (BitVec 32)) : Slot := (name, v.map fun v => .i32 v.toInt)

def optionF64 (name : String) (v : Option ℚ) : Slot := (name, v.map fun v => .f64 (.ofRat v))

def hundredths (v : BitVec 32) : ℚ := v.toNat / 100

def positionSlots (p : Position) : List Slot :=
  [ optionF64 "lat" p.latDeg,
    optionF64 "lon" p.lonDeg,
    optionI32 "alt_m" p.altitudeM,
    optionI32 "alt_hae_m" p.altitudeHaeM,
    optionI32 "alt_geoidal_sep_m" p.altitudeGeoidalSeparationM,
    optionU32 "time" p.time,
    optionU32 "timestamp" p.timestamp,
    nonzeroI32 "timestamp_ms_adj" p.timestampMillisAdjust,
    nonzeroU32 "loc_src" p.locationSource,
    nonzeroU32 "alt_src" p.altitudeSource,
    optionF64 "pdop" (if p.pdopX100 ≠ 0 then some (hundredths p.pdopX100) else none),
    optionF64 "hdop" (if p.hdopX100 ≠ 0 then some (hundredths p.hdopX100) else none),
    optionF64 "vdop" (if p.vdopX100 ≠ 0 then some (hundredths p.vdopX100) else none),
    nonzeroU32 "gps_accuracy_mm" p.gpsAccuracyMm,
    optionU32 "speed_mps" p.groundSpeedMps,
    optionF64 "track_deg" (p.groundTrackX100.map hundredths),
    nonzeroU32 "fix_quality" p.fixQuality,
    nonzeroU32 "fix_type" p.fixType,
    nonzeroU32 "sats" p.satsInView,
    nonzeroU32 "sensor_id" p.sensorId,
    nonzeroU32 "next_update_s" p.nextUpdateS,
    nonzeroU32 "seq" p.seqNumber,
    nonzeroU32 "precision_bits" p.precisionBits ]

def userSlots (u : User) : List Slot :=
  [ nonemptyStr "node_id" u.id,
    nonemptyStr "long_name" u.longName,
    nonemptyStr "short_name" u.shortName,
    nonzeroU32 "hw_model" u.hwModel,
    nonzeroU32 "role" u.role ] ++
  onlyIf u.isLicensed [fieldBool "licensed" true] ++
  [("unmessagable", u.isUnmessagable.map .bool)] ++
  onlyIf u.havePublicKey [fieldStr "public_key" (u.publicKey.flatMap hexByte)]

def Metrics.number (b : Metrics) (field : Nat) : BitVec 64 :=
  match b.values.lookup field with
  | some (.number v) => v
  | _ => 0

def Metrics.text (b : Metrics) (field : Nat) : List Byte :=
  match b.values.lookup field with
  | some (.text s) => s
  | _ => []

def metricValue (b : Metrics) (m : Metric) : Value × Bool :=
  let v := Metrics.number b m.field
  match m.kind with
  | .u32 => (.u32 v.toNat, v != 0)
  | .u64 => (.u64 v.toNat, v != 0)
  | .i32 => (.i32 (low32 v).toInt, v != 0)
  | .f32 => (.f32 (.ofBits (low32 v)), !isZero (.ofBits (low32 v)))
  | .str _ => (.str (Metrics.text b m.field), startsText (Metrics.text b m.field))

def metricsField (always : Bool) (name : String) (table : List Metric) (b : Metrics) : List Field :=
  if b.present then
    [.object name (table.filterMap fun m =>
      if always || (metricValue b m).2 then some (m.name, (metricValue b m).1) else none)]
  else []

def telemetryJson (t : Telemetry) : List Field :=
  scalars [nonzeroU32 "time" t.timeUnix] ++
  metricsField true "device" deviceMetrics t.device ++
  metricsField false "environment" environmentMetrics t.environment ++
  metricsField false "power" powerMetrics t.power ++
  metricsField false "air_quality" airQualityMetrics t.airQuality ++
  metricsField false "local_stats" localStatsMetrics t.localStats ++
  metricsField false "health" healthMetrics t.health ++
  metricsField false "host" hostMetrics t.host ++
  metricsField false "traffic_mgmt" trafficMgmtMetrics t.trafficMgmt

def receiptName (type : BitVec 32) : Option String :=
  if type = 1 then some "delivered" else if type = 2 then some "read" else none

def atakSlots (a : Atak) : List Slot :=
  [ nonemptyStr "atak_callsign" a.callsign,
    nonemptyStr "atak_device" a.deviceCallsign,
    fieldStr "atak_team" (ascii (meshAtakTeamName a.team)),
    fieldStr "atak_role" (ascii (meshAtakRoleName a.role)),
    nonzeroU32 "atak_battery" a.battery ] ++
  onlyIf (a.kind = .pli)
    [ optionF64 "lat" a.latDeg,
      optionF64 "lon" a.lonDeg,
      nonzeroI32 "alt_hae_m" a.altitudeHaeM,
      nonzeroU32 "speed_mps" a.speedMps,
      nonzeroU32 "course_deg" a.courseDeg ] ++
  onlyIf (a.kind = .chat)
    ([ ("atak_chat_receipt", (receiptName a.chatReceiptType).map fun r => .str (ascii r)),
       nonemptyStr "atak_chat" a.chatMessage,
       nonemptyStr "atak_chat_to" a.chatTo,
       nonemptyStr "atak_chat_to_callsign" a.chatToCallsign,
       nonemptyStr "atak_chat_receipt_for" a.chatReceiptForUid,
       nonemptyStr "atak_chat_lang" a.chatLang,
       nonemptyStr "atak_chat_room" a.chatRoomId ] ++
     onlyIf a.chatHasVoiceProfile [fieldStr "atak_chat_taktalk" (ascii "1")])

def routeField (route : List (BitVec 32)) : List Field :=
  if route = [] then [] else [.strings "route" (route.map nodeId)]

def routingJson (r : Routing) : List Field :=
  scalars
    (match r.kind with
      | .none => []
      | .request => [fieldStr "routing_kind" (ascii "request")]
      | .reply => [fieldStr "routing_kind" (ascii "reply")]
      | .error =>
        [ fieldStr "routing_kind" (ascii "error"),
          fieldU32 "error_reason" r.errorReason.toNat ]) ++
  routeField r.route

def waypointSlots (w : Waypoint) : List Slot :=
  [ nonzeroU32 "waypoint_id" w.id,
    optionF64 "lat" w.latDeg,
    optionF64 "lon" w.lonDeg,
    nonzeroU32 "expire" w.expire,
    nonzeroU32 "locked_to" w.lockedTo,
    nonemptyStr "wp_name" w.name,
    nonemptyStr "wp_desc" w.description,
    nonzeroU32 "wp_icon" w.icon ]

def neighborJson (ni : NeighborInfo) : List Field :=
  scalars
    [ fieldU32 "neighbor_node_id" ni.nodeId.toNat,
      nonzeroU32 "last_sent_by" ni.lastSentById,
      nonzeroU32 "broadcast_interval_s" ni.nodeBroadcastIntervalSecs ] ++
  (if ni.neighbors.isEmpty then []
    else
      [.objects "neighbors" (ni.neighbors.map fun n =>
        (nodeId n.nodeId,
          if isZero (.ofBits n.snrDb) then [] else [("snr_db", .f32 (.ofBits n.snrDb))]))])

def keyverifSlots (kv : Keyverif) : List Slot :=
  [nonzeroU64 "kv_nonce" kv.nonce] ++
  onlyIf (kv.hash1Len ≠ 0) [fieldU32 "kv_hash1_len" kv.hash1Len] ++
  onlyIf (kv.hash2Len ≠ 0) [fieldU32 "kv_hash2_len" kv.hash2Len]

def mapreportSlots (mr : Mapreport) : List Slot :=
  [ nonemptyStr "long_name" mr.longName,
    nonemptyStr "short_name" mr.shortName,
    nonemptyStr "firmware" mr.firmwareVersion,
    nonzeroU32 "role" mr.role,
    nonzeroU32 "hw_model" mr.hwModel,
    nonzeroU32 "region" mr.region,
    nonzeroU32 "sender_preset" mr.modemPreset,
    optionF64 "lat" mr.latDeg,
    optionF64 "lon" mr.lonDeg,
    nonzeroI32 "alt_m" mr.altitudeM,
    nonzeroU32 "online_nodes" mr.numOnlineLocalNodes ]

def adminSlots (a : Admin) : List Slot :=
  [nonzeroU32 "admin_variant" a.variantField] ++
  onlyIf a.hasSessionPasskey [fieldBool "admin_session" true]

def remoteHwSlots (h : RemoteHw) : List Slot :=
  [ nonzeroU32 "hw_type" h.type,
    nonzeroU64 "hw_gpio_mask" h.gpioMask,
    nonzeroU64 "hw_gpio_value" h.gpioValue ]

def paxcounterSlots (pc : Paxcounter) : List Slot :=
  [ fieldU32 "pax_wifi" pc.wifi.toNat,
    fieldU32 "pax_ble" pc.ble.toNat,
    fieldU32 "pax_uptime_s" pc.uptimeS.toNat ]

def storeforwardSlots (sf : Storeforward) : List Slot :=
  [ match meshStoreforwardRrName sf.rr with
      | some rr => fieldStr "sf_rr" (ascii rr)
      | none => fieldU32 "sf_rr_id" sf.rr.toNat ] ++
  onlyIf sf.haveStats
    [ fieldU32 "sf_total" sf.statsTotal.toNat,
      fieldU32 "sf_history" sf.statsHistory.toNat,
      fieldU32 "sf_max" sf.statsMax.toNat,
      fieldU32 "sf_uptime_s" sf.statsUpTimeS.toNat,
      fieldU32 "sf_requests" sf.statsRequests.toNat ] ++
  onlyIf sf.haveHistory
    [ fieldU32 "sf_hist_count" sf.histCount.toNat,
      fieldU32 "sf_hist_window_s" sf.histWindowS.toNat ]

def decoded {σ : Type} (decode : List Byte → Option σ) (json : σ → List Field) (ev : FeedEvent) :
    List Field :=
  match ev.payload.bind decode with
  | some r => json r
  | none => []

def portFields (ev : FeedEvent) : List Field :=
  match ev.portnum.toNat with
  | 1 => scalars [fieldStr "text" ((ev.payload.getD []).take 255)]
  | 2 => decoded meshDecodeRemoteHw (scalars ∘ remoteHwSlots) ev
  | 3 => decoded meshDecodePosition (scalars ∘ positionSlots) ev
  | 4 => decoded meshDecodeUser (scalars ∘ userSlots) ev
  | 5 => decoded meshDecodeRouting routingJson ev
  | 6 => decoded meshDecodeAdmin (scalars ∘ adminSlots) ev
  | 8 => decoded meshDecodeWaypoint (scalars ∘ waypointSlots) ev
  | 10 => decoded meshDecodeDetection (fun text => scalars [nonemptyStr "detection_text" text]) ev
  | 12 => decoded meshDecodeKeyverif (scalars ∘ keyverifSlots) ev
  | 34 => decoded meshDecodePaxcounter (scalars ∘ paxcounterSlots) ev
  | 65 => decoded meshDecodeStoreforward (scalars ∘ storeforwardSlots) ev
  | 66 => scalars [fieldStr "text" ((ev.payload.getD []).take 127)]
  | 67 => decoded meshDecodeTelemetry telemetryJson ev
  | 70 => decoded meshDecodeTraceroute (fun tr => routeField tr.route) ev
  | 71 => decoded meshDecodeNeighborinfo neighborJson ev
  | 72 => decoded meshDecodeAtak (scalars ∘ atakSlots) ev
  | 73 => decoded meshDecodeMapreport (scalars ∘ mapreportSlots) ev
  | _ => []

def meshPortName (port : BitVec 32) : String :=
  ([ (0, "UNKNOWN_APP"), (1, "TEXT_MESSAGE_APP"), (2, "REMOTE_HARDWARE_APP"), (3, "POSITION_APP"),
     (4, "NODEINFO_APP"), (5, "ROUTING_APP"), (6, "ADMIN_APP"), (7, "TEXT_MESSAGE_COMPRESSED_APP"),
     (8, "WAYPOINT_APP"), (9, "AUDIO_APP"), (10, "DETECTION_SENSOR_APP"), (11, "ALERT_APP"),
     (12, "KEY_VERIFICATION_APP"), (32, "REPLY_APP"), (33, "IP_TUNNEL_APP"),
     (34, "PAXCOUNTER_APP"), (35, "STORE_FORWARD_PLUSPLUS_APP"), (36, "NODE_STATUS_APP"),
     (64, "SERIAL_APP"), (65, "STORE_FORWARD_APP"), (66, "RANGE_TEST_APP"), (67, "TELEMETRY_APP"),
     (68, "ZPS_APP"), (69, "SIMULATOR_APP"), (70, "TRACEROUTE_APP"), (71, "NEIGHBORINFO_APP"),
     (72, "ATAK_PLUGIN"), (73, "MAP_REPORT_APP"), (74, "POWERSTRESS_APP"),
     (76, "RETICULUM_TUNNEL_APP"), (256, "PRIVATE_APP"), (257, "ATAK_FORWARDER")
   ].lookup port.toNat).getD "UNKNOWN"

/-! ## The serialiser -/

def meshtasticFields (station : Station) (ts : CFloat) (ev : FeedEvent) : List Field :=
  scalars (stationSlots station ts ++ headerSlots ev ++ timingSlots station ev ++ channelSlots ev) ++
  if ev.decrypted then
    scalars
      (onlyIf (cString ev.channelName ≠ []) [fieldStr "channel_name" ev.channelName] ++
       [ fieldU32 "portnum" ev.portnum.toNat,
         fieldStr "port_name" (ascii (meshPortName ev.portnum)) ]) ++
    portFields ev
  else scalars [fieldBool "decrypted" false]

def serializeEvent (j : Jw) (station : Station) (ts : CFloat) (ev : FeedEvent) : Jw :=
  if ev.isMeshcore then feedSerializeEventMeshcore j station ts ev.toRadioEvent
  else jwPutc (jwObject j (meshtasticFields station ts ev)) 0x0A

end MeshcoreSniffer.Feed
