import MeshcoreSniffer.Lib.Printf
import MeshcoreSniffer.Meshtastic.Protobuf

/-!
# Meshtastic payload decoders

`mesh_decoders.c`: each decoder is a table of readers over the record it fills, which holds what the
feed writes; one that returns false gives `none`.
-/

namespace MeshcoreSniffer.Meshtastic

open Lib Lib.Printf

def copyStr (size : Nat) (src : List Byte) : List Byte := src.take (size - 1)

def degrees (v : BitVec 32) : ℚ := v.toInt / 10 ^ 7

def low32 (v : BitVec 64) : BitVec 32 := v.setWidth 32

def low8 (v : BitVec 64) : BitVec 8 := v.setWidth 8

/-! ## POSITION_APP -/

/-- `mesh_position_t`; an optional field is one with a `have_` flag. -/
structure Position where
  latDeg : Option ℚ := none
  lonDeg : Option ℚ := none
  altitudeM : Option (BitVec 32) := none
  time : Option (BitVec 32) := none
  locationSource : BitVec 32 := 0
  altitudeSource : BitVec 32 := 0
  timestamp : Option (BitVec 32) := none
  timestampMillisAdjust : BitVec 32 := 0
  altitudeHaeM : Option (BitVec 32) := none
  altitudeGeoidalSeparationM : Option (BitVec 32) := none
  pdopX100 : BitVec 32 := 0
  hdopX100 : BitVec 32 := 0
  vdopX100 : BitVec 32 := 0
  gpsAccuracyMm : BitVec 32 := 0
  groundSpeedMps : Option (BitVec 32) := none
  groundTrackX100 : Option (BitVec 32) := none
  fixQuality : BitVec 32 := 0
  fixType : BitVec 32 := 0
  satsInView : BitVec 32 := 0
  sensorId : BitVec 32 := 0
  nextUpdateS : BitVec 32 := 0
  seqNumber : BitVec 32 := 0
  precisionBits : BitVec 32 := 0

def positionFields : List (Nat × Reader Position) :=
  [ (1, .typedFixed32 fun v s => { s with latDeg := some (degrees v) }),
    (2, .typedFixed32 fun v s => { s with lonDeg := some (degrees v) }),
    (3, .typedVarint fun v s => { s with altitudeM := some (low32 v) }),
    (4, .typedFixed32 fun v s => { s with time := some v }),
    (5, .typedVarint fun v s => { s with locationSource := low32 v }),
    (6, .typedVarint fun v s => { s with altitudeSource := low32 v }),
    (7, .typedFixed32 fun v s => { s with timestamp := some v }),
    (8, .typedVarint fun v s => { s with timestampMillisAdjust := low32 v }),
    (9, .typedVarint fun v s => { s with altitudeHaeM := some (pbZigzag32 (low32 v)) }),
    (10, .typedVarint fun v s =>
      { s with altitudeGeoidalSeparationM := some (pbZigzag32 (low32 v)) }),
    (11, .typedVarint fun v s => { s with pdopX100 := low32 v }),
    (12, .typedVarint fun v s => { s with hdopX100 := low32 v }),
    (13, .typedVarint fun v s => { s with vdopX100 := low32 v }),
    (14, .typedVarint fun v s => { s with gpsAccuracyMm := low32 v }),
    (15, .typedVarint fun v s => { s with groundSpeedMps := some (low32 v) }),
    (16, .typedVarint fun v s => { s with groundTrackX100 := some (low32 v) }),
    (17, .typedVarint fun v s => { s with fixQuality := low32 v }),
    (18, .typedVarint fun v s => { s with fixType := low32 v }),
    (19, .typedVarint fun v s => { s with satsInView := low32 v }),
    (20, .typedVarint fun v s => { s with sensorId := low32 v }),
    (21, .typedVarint fun v s => { s with nextUpdateS := low32 v }),
    (22, .typedVarint fun v s => { s with seqNumber := low32 v }),
    (23, .typedVarint fun v s => { s with precisionBits := low32 v }) ]

def decodeWhole {σ : Type} (handler : Handler σ) (check : σ → Bool) (start : σ) (buf : List Byte) :
    Option σ :=
  match pbMessage handler buf start with
  | (s, .done) => if check s then some s else none
  | _ => none

def meshDecodePosition : List Byte → Option Position :=
  decodeWhole (switchOn positionFields)
    (fun s => s.latDeg.isSome || s.lonDeg.isSome || s.time.isSome || s.timestamp.isSome) {}

/-! ## NODEINFO_APP -/

structure User where
  id : List Byte := []
  longName : List Byte := []
  shortName : List Byte := []
  hwModel : BitVec 32 := 0
  isLicensed : Bool := false
  role : BitVec 32 := 0
  publicKey : List Byte := List.replicate 32 0
  havePublicKey : Bool := false
  isUnmessagable : Option Bool := none

def userFields : List (Nat × Reader User) :=
  [ (1, .bytes fun v s => { s with id := copyStr 24 v }),
    (2, .bytes fun v s => { s with longName := copyStr 64 v }),
    (3, .bytes fun v s => { s with shortName := copyStr 8 v }),
    (4, .bytes fun _ s => s),
    (5, .varint fun v s => { s with hwModel := low32 v }),
    (6, .varint fun v s => { s with isLicensed := v != 0 }),
    (7, .varint fun v s => { s with role := low32 v }),
    (8, .bytes fun v s =>
      -- a shorter key leaves the rest of an earlier one
      if v.length ≤ 32 then
        { s with publicKey := v ++ s.publicKey.drop v.length, havePublicKey := true }
      else s),
    (9, .varint fun v s => { s with isUnmessagable := some (v != 0) }) ]

def startsText (s : List Byte) : Bool := cString s != []

def meshDecodeUser : List Byte → Option User :=
  decodeWhole (switchOn userFields)
    (fun s => startsText s.id || startsText s.longName || startsText s.shortName) {}

/-! ## TELEMETRY_APP

The sub-messages of `mesh_telemetry_t` are read and written by tables: the field
number, how the value is read, and the name the feed writes it under. -/

inductive MetricKind where
  | u32
  | u64
  | i32
  | f32
  | str (size : Nat)

structure Metric where
  field : Nat
  kind : MetricKind
  name : String

inductive MetricValue where
  | number (v : BitVec 64)
  | text (s : List Byte)

/-- The fields of one sub-message, newest first, and its `have_` flag. -/
structure Metrics where
  present : Bool := false
  values : List (Nat × MetricValue) := []

def Metrics.put (b : Metrics) (field : Nat) (v : MetricValue) : Metrics :=
  { b with values := (field, v) :: b.values }

/-- How a metric is read; `typed` where the decoder checks the wire type. -/
def Metric.reader (typed : Bool) (m : Metric) : Reader Metrics :=
  match m.kind with
  | .u32 | .i32 =>
    let set := fun v (b : Metrics) => b.put m.field (.number ((low32 v).setWidth 64))
    if typed then .typedVarint set else .varint set
  | .u64 => .varint fun v b => b.put m.field (.number v)
  | .f32 =>
    let set := fun (v : BitVec 32) (b : Metrics) => b.put m.field (.number (v.setWidth 64))
    if typed then .typedFixed32 set else .fixed32 set
  | .str size => .bytes fun v b => b.put m.field (.text (copyStr size v))

/-- The flag is set when the end is reached. -/
def parseMetrics (typed : Bool) (table : List Metric) (buf : List Byte) (b : Metrics) : Metrics :=
  match pbMessage (switchOn (table.map fun m => (m.field, m.reader typed))) buf b with
  | (b, .done) => { b with present := true }
  | (b, _) => b

def deviceMetrics : List Metric :=
  [ ⟨1, .u32, "battery"⟩, ⟨2, .f32, "voltage"⟩, ⟨3, .f32, "ch_util"⟩, ⟨4, .f32, "air_tx"⟩,
    ⟨5, .u32, "uptime"⟩ ]

def environmentMetrics : List Metric :=
  [ ⟨1, .f32, "temp_c"⟩, ⟨2, .f32, "humidity"⟩, ⟨3, .f32, "pressure"⟩, ⟨4, .f32, "gas_res"⟩,
    ⟨5, .f32, "voltage"⟩, ⟨6, .f32, "current"⟩, ⟨7, .u32, "iaq"⟩, ⟨8, .f32, "distance_mm"⟩,
    ⟨9, .f32, "lux"⟩, ⟨10, .f32, "white_lux"⟩, ⟨11, .f32, "ir_lux"⟩, ⟨12, .f32, "uv_lux"⟩,
    ⟨13, .u32, "wind_dir_deg"⟩, ⟨14, .f32, "wind_mps"⟩, ⟨15, .f32, "weight"⟩,
    ⟨16, .f32, "wind_gust_mps"⟩, ⟨17, .f32, "wind_lull_mps"⟩, ⟨18, .f32, "radiation_uSvh"⟩,
    ⟨19, .f32, "rain_1h_mm"⟩, ⟨20, .f32, "rain_24h_mm"⟩, ⟨21, .u32, "soil_moisture"⟩,
    ⟨22, .f32, "soil_temp_c"⟩ ]

def powerMetrics : List Metric :=
  [ ⟨1, .f32, "ch1_v"⟩, ⟨2, .f32, "ch1_a"⟩, ⟨3, .f32, "ch2_v"⟩, ⟨4, .f32, "ch2_a"⟩,
    ⟨5, .f32, "ch3_v"⟩, ⟨6, .f32, "ch3_a"⟩, ⟨7, .f32, "ch4_v"⟩, ⟨8, .f32, "ch4_a"⟩,
    ⟨9, .f32, "ch5_v"⟩, ⟨10, .f32, "ch5_a"⟩, ⟨11, .f32, "ch6_v"⟩, ⟨12, .f32, "ch6_a"⟩,
    ⟨13, .f32, "ch7_v"⟩, ⟨14, .f32, "ch7_a"⟩, ⟨15, .f32, "ch8_v"⟩, ⟨16, .f32, "ch8_a"⟩ ]

def airQualityMetrics : List Metric :=
  [ ⟨1, .u32, "pm10_std"⟩, ⟨2, .u32, "pm25_std"⟩, ⟨3, .u32, "pm100_std"⟩, ⟨4, .u32, "pm10_env"⟩,
    ⟨5, .u32, "pm25_env"⟩, ⟨6, .u32, "pm100_env"⟩, ⟨7, .u32, "p_03um"⟩, ⟨8, .u32, "p_05um"⟩,
    ⟨9, .u32, "p_10um"⟩, ⟨10, .u32, "p_25um"⟩, ⟨11, .u32, "p_50um"⟩, ⟨12, .u32, "p_100um"⟩,
    ⟨13, .u32, "co2_ppm"⟩, ⟨14, .f32, "co2_temp_c"⟩, ⟨15, .f32, "co2_hum"⟩, ⟨16, .f32, "ch2o_ppb"⟩,
    ⟨17, .f32, "ch2o_hum"⟩, ⟨18, .f32, "ch2o_temp_c"⟩, ⟨19, .u32, "pm40_std"⟩,
    ⟨20, .u32, "p_40um"⟩, ⟨21, .f32, "pm_temp_c"⟩, ⟨22, .f32, "pm_hum"⟩, ⟨23, .f32, "pm_voc"⟩,
    ⟨24, .f32, "pm_nox"⟩, ⟨25, .f32, "p_tps_um"⟩ ]

def localStatsMetrics : List Metric :=
  [ ⟨1, .u32, "uptime_s"⟩, ⟨2, .f32, "ch_util"⟩, ⟨3, .f32, "air_tx"⟩, ⟨4, .u32, "pkts_tx"⟩,
    ⟨5, .u32, "pkts_rx"⟩, ⟨6, .u32, "pkts_rx_bad"⟩, ⟨7, .u32, "nodes_online"⟩,
    ⟨8, .u32, "nodes_total"⟩, ⟨9, .u32, "rx_dupe"⟩, ⟨10, .u32, "tx_relay"⟩,
    ⟨11, .u32, "tx_relay_cancel"⟩, ⟨12, .u32, "heap_total"⟩, ⟨13, .u32, "heap_free"⟩,
    ⟨14, .u32, "tx_dropped"⟩, ⟨15, .i32, "noise_floor_dbm"⟩ ]

def healthMetrics : List Metric :=
  [⟨1, .u32, "heart_bpm"⟩, ⟨2, .u32, "spo2"⟩, ⟨3, .f32, "body_temp_c"⟩]

def hostMetrics : List Metric :=
  [ ⟨1, .u32, "uptime_s"⟩, ⟨2, .u64, "freemem_bytes"⟩, ⟨3, .u64, "disk1_bytes"⟩,
    ⟨4, .u64, "disk2_bytes"⟩, ⟨5, .u64, "disk3_bytes"⟩, ⟨6, .u32, "load1_x100"⟩,
    ⟨7, .u32, "load5_x100"⟩, ⟨8, .u32, "load15_x100"⟩, ⟨9, .str 64, "user_string"⟩ ]

def trafficMgmtMetrics : List Metric :=
  [ ⟨1, .u32, "inspected"⟩, ⟨2, .u32, "pos_dedup_drops"⟩, ⟨3, .u32, "nodeinfo_hits"⟩,
    ⟨4, .u32, "rate_limit_drops"⟩, ⟨5, .u32, "unknown_drops"⟩, ⟨6, .u32, "hop_exhausted"⟩,
    ⟨7, .u32, "router_hops_kept"⟩ ]

/-- `mesh_telemetry_t`, with the flag `any` of the decoder. -/
structure Telemetry where
  timeUnix : BitVec 32 := 0
  device : Metrics := {}
  environment : Metrics := {}
  airQuality : Metrics := {}
  power : Metrics := {}
  localStats : Metrics := {}
  health : Metrics := {}
  host : Metrics := {}
  trafficMgmt : Metrics := {}
  any : Bool := false

def telemetryFields : List (Nat × Reader Telemetry) :=
  [ (1, .fixed32 fun v s => { s with timeUnix := v, any := true }),
    (2, .bytes fun v s =>
      { s with device := parseMetrics false deviceMetrics v s.device, any := true }),
    (3, .bytes fun v s =>
      { s with environment := parseMetrics true environmentMetrics v s.environment, any := true }),
    (4, .bytes fun v s =>
      { s with airQuality := parseMetrics false airQualityMetrics v s.airQuality, any := true }),
    (5, .bytes fun v s =>
      { s with power := parseMetrics false powerMetrics v s.power, any := true }),
    (6, .bytes fun v s =>
      { s with localStats := parseMetrics false localStatsMetrics v s.localStats, any := true }),
    (7, .bytes fun v s =>
      { s with health := parseMetrics false healthMetrics v s.health, any := true }),
    (8, .bytes fun v s => { s with host := parseMetrics false hostMetrics v s.host, any := true }),
    (9, .bytes fun v s =>
      { s with trafficMgmt := parseMetrics false trafficMgmtMetrics v s.trafficMgmt, any := true }) ]

/-- What was read counts even when the rest is broken. -/
def meshDecodeTelemetry (buf : List Byte) : Option Telemetry :=
  let t := (pbMessage (switchOn telemetryFields) buf {}).1
  if t.any then some t else none

/-! ## ROUTING_APP and TRACEROUTE_APP -/

def routeCap : Nat := 16

/-- Varints until the block or the array is full. -/
def parsePacked {α : Type} (element : BitVec 64 → α) : Nat → List Byte → List α → List α
  | 0, _, arr => arr
  | fuel + 1, p, arr =>
    if p = [] ∨ routeCap ≤ arr.length then arr
    else
      match pbReadVarint p with
      | (some v, p) => parsePacked element fuel p (arr ++ [element v])
      | (none, _) => arr

def appendRepeated {α : Type} (element : BitVec 64 → α) (wt : BitVec 3) (p : List Byte)
    (arr : List α) : Option (List α × List Byte) :=
  if wt = 0 then
    match pbReadVarint p with
    | (some v, p) => some (if arr.length < routeCap then arr ++ [element v] else arr, p)
    | (none, _) => none
  else if wt = 2 then
    match pbReadLength p with
    | (some block, p) => some (parsePacked element (block.length + 1) block arr, p)
    | (none, _) => none
  else (pbSkipValue p wt).map (arr, ·)

def appendRepeatedU32 : BitVec 3 → List Byte → List (BitVec 32) →
    Option (List (BitVec 32) × List Byte) :=
  appendRepeated low32

def appendRepeatedI8 : BitVec 3 → List Byte → List (BitVec 8) → Option (List (BitVec 8) × List Byte) :=
  appendRepeated low8

/-- The branches of `parse_route_discovery`. -/
def routeDiscoveryFields : Handler (List (BitVec 32)) := fun fld wt p route =>
  if fld = 1 then appendRepeatedU32 wt p route else (pbSkipValue p wt).map (route, ·)

def parseRouteDiscovery (buf : List Byte) (route : List (BitVec 32)) : List (BitVec 32) :=
  (pbMessage routeDiscoveryFields buf route).1

inductive RoutingKind where
  | none
  | request
  | reply
  | error
  deriving DecidableEq

structure Routing where
  kind : RoutingKind := .none
  errorReason : BitVec 32 := 0
  route : List (BitVec 32) := []

def routingFields : List (Nat × Reader Routing) :=
  [ (1, .bytes fun v s => { s with kind := .request, route := parseRouteDiscovery v s.route }),
    (2, .bytes fun v s => { s with kind := .reply, route := parseRouteDiscovery v s.route }),
    (3, .varint fun v s => { s with kind := .error, errorReason := low32 v }) ]

def meshDecodeRouting : List Byte → Option Routing :=
  decodeWhole (switchOn routingFields) (fun s => s.kind != .none) {}

/-- The way out and the way back, with their signal levels. -/
structure Traceroute where
  route : List (BitVec 32) := []
  snrTowards : List (BitVec 8) := []
  routeBack : List (BitVec 32) := []
  snrBack : List (BitVec 8) := []
  deriving DecidableEq

def tracerouteFields : Handler Traceroute := fun fld wt p s =>
  if fld = 1 then (appendRepeatedU32 wt p s.route).map fun r => ({ s with route := r.1 }, r.2)
  else if fld = 2 then
    (appendRepeatedI8 wt p s.snrTowards).map fun r => ({ s with snrTowards := r.1 }, r.2)
  else if fld = 3 then
    (appendRepeatedU32 wt p s.routeBack).map fun r => ({ s with routeBack := r.1 }, r.2)
  else if fld = 4 then (appendRepeatedI8 wt p s.snrBack).map fun r => ({ s with snrBack := r.1 }, r.2)
  else (pbSkipValue p wt).map (s, ·)

def meshDecodeTraceroute : List Byte → Option Traceroute :=
  decodeWhole tracerouteFields (fun s => s.route != [] || s.routeBack != []) {}

/-! ## WAYPOINT_APP -/

structure Waypoint where
  id : BitVec 32 := 0
  latDeg : Option ℚ := none
  lonDeg : Option ℚ := none
  expire : BitVec 32 := 0
  lockedTo : BitVec 32 := 0
  name : List Byte := []
  description : List Byte := []
  icon : BitVec 32 := 0

def waypointFields : List (Nat × Reader Waypoint) :=
  [ (1, .varint fun v s => { s with id := low32 v }),
    (2, .fixed32 fun v s => { s with latDeg := some (degrees v) }),
    (3, .fixed32 fun v s => { s with lonDeg := some (degrees v) }),
    (4, .varint fun v s => { s with expire := low32 v }),
    (5, .varint fun v s => { s with lockedTo := low32 v }),
    (6, .bytes fun v s => { s with name := copyStr 32 v }),
    (7, .bytes fun v s => { s with description := copyStr 80 v }),
    (8, .fixed32 fun v s => { s with icon := v }) ]

def meshDecodeWaypoint : List Byte → Option Waypoint :=
  decodeWhole (switchOn waypointFields)
    (fun s => s.latDeg.isSome || s.lonDeg.isSome || startsText s.name) {}

/-! ## NEIGHBORINFO_APP -/

structure Neighbor where
  nodeId : BitVec 32 := 0
  snrDb : BitVec 32 := 0

def neighborFields : List (Nat × Reader Neighbor) :=
  [ (1, .varint fun v s => { s with nodeId := low32 v }),
    (2, .fixed32 fun v s => { s with snrDb := v }),
    (3, .fixed32 fun _ s => s),
    (4, .varint fun _ s => s) ]

def parseOneNeighbor (buf : List Byte) : Neighbor := (pbMessage (switchOn neighborFields) buf {}).1

structure NeighborInfo where
  nodeId : BitVec 32 := 0
  lastSentById : BitVec 32 := 0
  nodeBroadcastIntervalSecs : BitVec 32 := 0
  neighbors : List Neighbor := []

def neighborInfoFields : List (Nat × Reader NeighborInfo) :=
  [ (1, .varint fun v s => { s with nodeId := low32 v }),
    (2, .varint fun v s => { s with lastSentById := low32 v }),
    (3, .varint fun v s => { s with nodeBroadcastIntervalSecs := low32 v }),
    (4, .bytes fun v s =>
      if s.neighbors.length < 16 then
        { s with neighbors := s.neighbors ++ [parseOneNeighbor v] }
      else s) ]

def meshDecodeNeighborinfo : List Byte → Option NeighborInfo :=
  decodeWhole (switchOn neighborInfoFields) (fun s => s.nodeId != 0 || !s.neighbors.isEmpty) {}

/-! ## KEY_VERIFICATION_APP, MAP_REPORT_APP and ADMIN_APP -/

structure Keyverif where
  nonce : BitVec 64 := 0
  hash1Len : Nat := 0
  hash2Len : Nat := 0

def keyverifFields : List (Nat × Reader Keyverif) :=
  [ (1, .varint fun v s => { s with nonce := v }),
    (2, .bytes fun v s => { s with hash1Len := v.length }),
    (3, .bytes fun v s => { s with hash2Len := v.length }) ]

def meshDecodeKeyverif : List Byte → Option Keyverif :=
  decodeWhole (switchOn keyverifFields)
    (fun s => s.nonce != 0 || s.hash1Len != 0 || s.hash2Len != 0) {}

structure Mapreport where
  longName : List Byte := []
  shortName : List Byte := []
  role : BitVec 32 := 0
  hwModel : BitVec 32 := 0
  firmwareVersion : List Byte := []
  region : BitVec 32 := 0
  modemPreset : BitVec 32 := 0
  latDeg : Option ℚ := none
  lonDeg : Option ℚ := none
  altitudeM : BitVec 32 := 0
  numOnlineLocalNodes : BitVec 32 := 0

def mapreportFields : List (Nat × Reader Mapreport) :=
  [ (1, .bytes fun v s => { s with longName := copyStr 64 v }),
    (2, .bytes fun v s => { s with shortName := copyStr 8 v }),
    (3, .varint fun v s => { s with role := low32 v }),
    (4, .varint fun v s => { s with hwModel := low32 v }),
    (5, .bytes fun v s => { s with firmwareVersion := copyStr 24 v }),
    (6, .varint fun v s => { s with region := low32 v }),
    (7, .varint fun v s => { s with modemPreset := low32 v }),
    (8, .varint fun _ s => s),
    (9, .fixed32 fun v s => { s with latDeg := some (degrees v) }),
    (10, .fixed32 fun v s => { s with lonDeg := some (degrees v) }),
    (11, .varint fun v s => { s with altitudeM := low32 v }),
    (12, .varint fun _ s => s),
    (13, .varint fun v s => { s with numOnlineLocalNodes := low32 v }) ]

def meshDecodeMapreport : List Byte → Option Mapreport :=
  decodeWhole (switchOn mapreportFields) (fun s => startsText s.longName || s.latDeg.isSome) {}

structure Admin where
  variantField : BitVec 32 := 0
  hasSessionPasskey : Bool := false

def adminFields : Handler Admin := fun fld wt p s =>
  if fld = 101 then
    match pbReadLength p with
    | (some key, p) => some ({ s with hasSessionPasskey := key != [] }, p)
    | (none, _) => none
  else
    let s := if s.variantField = 0 then { s with variantField := fld } else s
    (pbSkipValue p wt).map (s, ·)

def meshDecodeAdmin : List Byte → Option Admin :=
  decodeWhole adminFields (fun s => s.variantField != 0 || s.hasSessionPasskey) {}

/-! ## ATAK_PLUGIN -/

inductive AtakKind where
  | none
  | pli
  | chat
  | detail
  deriving DecidableEq

structure Atak where
  callsign : List Byte := []
  deviceCallsign : List Byte := []
  team : BitVec 32 := 0
  role : BitVec 32 := 0
  battery : BitVec 32 := 0
  kind : AtakKind := .none
  latDeg : Option ℚ := none
  lonDeg : Option ℚ := none
  altitudeHaeM : BitVec 32 := 0
  speedMps : BitVec 32 := 0
  courseDeg : BitVec 32 := 0
  chatMessage : List Byte := []
  chatTo : List Byte := []
  chatToCallsign : List Byte := []
  chatReceiptForUid : List Byte := []
  chatReceiptType : BitVec 32 := 0
  chatLang : List Byte := []
  chatRoomId : List Byte := []
  chatHasVoiceProfile : Bool := false

def nameAt (names : List String) (i : BitVec 32) (default : String) : String :=
  if i.toInt < 0 then default else names.getD i.toNat default

def meshAtakTeamName (team : BitVec 32) : String :=
  nameAt ["Unspecified", "White", "Yellow", "Orange", "Magenta", "Red", "Maroon", "Purple",
    "DarkBlue", "Blue", "Cyan", "Teal", "Green", "DarkGreen", "Brown"] team "Unspecified"

def meshAtakRoleName (role : BitVec 32) : String :=
  nameAt ["Unspecified", "TeamMember", "TeamLead", "HQ", "Sniper", "Medic", "ForwardObserver",
    "RTO", "K9"] role "Unknown"

def fillFrom {σ : Type} (fields : List (Nat × Reader σ)) (buf : List Byte) (s : σ) : σ :=
  (pbMessage (switchOn fields) buf s).1

def parseContact : List Byte → Atak → Atak :=
  fillFrom
    [ (1, .bytes fun v s => { s with callsign := copyStr 32 v }),
      (2, .bytes fun v s => { s with deviceCallsign := copyStr 32 v }) ]

def parseGroup : List Byte → Atak → Atak :=
  fillFrom
    [ (1, .varint fun v s => { s with role := low32 v }),
      (2, .varint fun v s => { s with team := low32 v }) ]

def parseStatus : List Byte → Atak → Atak :=
  fillFrom [(1, .varint fun v s => { s with battery := low32 v })]

def parsePli (buf : List Byte) (s : Atak) : Atak :=
  fillFrom
    [ (1, .fixed32 fun v s => { s with latDeg := some (degrees v) }),
      (2, .fixed32 fun v s => { s with lonDeg := some (degrees v) }),
      (3, .varint fun v s => { s with altitudeHaeM := low32 v }),
      (4, .varint fun v s => { s with speedMps := low32 v }),
      (5, .varint fun v s => { s with courseDeg := low32 v }) ]
    buf { s with kind := .pli }

def parseChat (buf : List Byte) (s : Atak) : Atak :=
  fillFrom
    [ (1, .bytes fun v s => { s with chatMessage := copyStr 200 v }),
      (2, .bytes fun v s => { s with chatTo := copyStr 64 v }),
      (3, .bytes fun v s => { s with chatToCallsign := copyStr 32 v }),
      (4, .bytes fun v s => { s with chatReceiptForUid := copyStr 64 v }),
      (5, .varint fun v s => { s with chatReceiptType := low32 v }),
      (6, .bytes fun v s => { s with chatLang := copyStr 16 v }),
      (7, .bytes fun v s => { s with chatRoomId := copyStr 40 v }),
      (8, .bytes fun _ s => { s with chatHasVoiceProfile := true }) ]
    buf { s with kind := .chat }

def atakFields : List (Nat × Reader Atak) :=
  [ (1, .varint fun _ s => s),
    (2, .bytes parseContact),
    (3, .bytes parseGroup),
    (4, .bytes parseStatus),
    (5, .bytes parsePli),
    (6, .bytes parseChat),
    (7, .bytes fun _ s => { s with kind := .detail }) ]

/-- Behind a tag that cannot be read, a kind is enough. -/
def meshDecodeAtak (buf : List Byte) : Option Atak :=
  match pbMessage (switchOn atakFields) buf {} with
  | (s, .done) => if s.kind ≠ .none ∨ startsText s.callsign then some s else none
  | (s, .badTag) => if s.kind ≠ .none then some s else none
  | (_, .badField) => none

/-! ## The remaining ports -/

structure RemoteHw where
  type : BitVec 32 := 0
  gpioMask : BitVec 64 := 0
  gpioValue : BitVec 64 := 0

def remoteHwFields : List (Nat × Reader RemoteHw) :=
  [ (1, .varint fun v s => { s with type := low32 v }),
    (2, .varint fun v s => { s with gpioMask := v }),
    (3, .varint fun v s => { s with gpioValue := v }) ]

def meshDecodeRemoteHw : List Byte → Option RemoteHw :=
  decodeWhole (switchOn remoteHwFields) (fun _ => true) {}

def meshDecodeDetection (buf : List Byte) : Option (List Byte) :=
  if buf = [] then none else some (copyStr 128 buf)

structure Storeforward where
  rr : BitVec 32 := 0
  haveStats : Bool := false
  statsTotal : BitVec 32 := 0
  statsHistory : BitVec 32 := 0
  statsMax : BitVec 32 := 0
  statsUpTimeS : BitVec 32 := 0
  statsRequests : BitVec 32 := 0
  haveHistory : Bool := false
  histCount : BitVec 32 := 0
  histWindowS : BitVec 32 := 0

def sfDecodeStats (buf : List Byte) (s : Storeforward) : Storeforward :=
  match pbMessage (switchOn
    [ (1, .varint fun v s => { s with statsTotal := low32 v }),
      (2, .varint fun v s => { s with statsHistory := low32 v }),
      (3, .varint fun v s => { s with statsMax := low32 v }),
      (4, .varint fun v s => { s with statsUpTimeS := low32 v }),
      (5, .varint fun v s => { s with statsRequests := low32 v }) ]) buf s with
  | (s, .done) => { s with haveStats := true }
  | (s, _) => s

def sfDecodeHistory (buf : List Byte) (s : Storeforward) : Storeforward :=
  match pbMessage (switchOn
    [ (1, .varint fun v s => { s with histCount := low32 v }),
      (2, .varint fun v s => { s with histWindowS := low32 v }) ]) buf s with
  | (s, .done) => { s with haveHistory := true }
  | (s, _) => s

/-- The sub-messages count only with wire type 2. -/
def storeforwardFields : Handler Storeforward := fun fld wt p s =>
  if fld = 1 then (Reader.varint fun v s => { s with rr := low32 v }).read wt p s
  else if fld = 2 ∧ wt = 2 then (Reader.bytes sfDecodeStats).read wt p s
  else if fld = 3 ∧ wt = 2 then (Reader.bytes sfDecodeHistory).read wt p s
  else (pbSkipValue p wt).map (s, ·)

def meshDecodeStoreforward : List Byte → Option Storeforward :=
  decodeWhole storeforwardFields (fun _ => true) {}

def meshStoreforwardRrName (rr : BitVec 32) : Option String :=
  [ (0, "UNSET"), (1, "ROUTER_ERROR"), (2, "ROUTER_HEARTBEAT"), (3, "ROUTER_PING"),
    (4, "ROUTER_PONG"), (5, "ROUTER_BUSY"), (6, "ROUTER_HISTORY"), (7, "ROUTER_STATS"),
    (8, "ROUTER_TEXT_DIRECT"), (9, "ROUTER_TEXT_BROADCAST"), (64, "CLIENT_ERROR"),
    (65, "CLIENT_HISTORY"), (66, "CLIENT_STATS"), (67, "CLIENT_PING"), (68, "CLIENT_PONG"),
    (106, "CLIENT_ABORT") ].lookup rr.toNat

structure Paxcounter where
  wifi : BitVec 32 := 0
  ble : BitVec 32 := 0
  uptimeS : BitVec 32 := 0

def paxcounterFields : List (Nat × Reader Paxcounter) :=
  [ (1, .varint fun v s => { s with wifi := low32 v }),
    (2, .varint fun v s => { s with ble := low32 v }),
    (3, .varint fun v s => { s with uptimeS := low32 v }) ]

def meshDecodePaxcounter : List Byte → Option Paxcounter :=
  decodeWhole (switchOn paxcounterFields) (fun _ => true) {}

/-! ## Every loop moves on -/

/-- The bodies of the loops in `mesh_decoders.c` and `mesh_packet.c`. -/
inductive PortLoop : {σ : Type} → Handler σ → Prop
  | table {σ : Type} (fields : List (Nat × Reader σ)) : PortLoop (switchOn fields)
  | routeDiscovery : PortLoop routeDiscoveryFields
  | traceroute : PortLoop tracerouteFields
  | admin : PortLoop adminFields
  | storeforward : PortLoop storeforwardFields

/-- The cursors at the head of the loop of `parsePacked`. -/
def packedCursors {α : Type} (element : BitVec 64 → α) : Nat → List Byte → List α → List (List Byte)
  | 0, _, _ => []
  | fuel + 1, p, arr => p ::
    if p = [] ∨ routeCap ≤ arr.length then []
    else
      match pbReadVarint p with
      | (some v, p) => packedCursors element fuel p (arr ++ [element v])
      | (none, _) => []

variable {α σ : Type} {element : BitVec 64 → α} {arr arr' : List α} {p rest : List Byte} {wt : BitVec 3}

theorem appendRepeated_suffix (h : appendRepeated element wt p arr = some (arr', rest)) : rest <:+ p := by
  have hv := (pbReadVarint_suffix p).trans (List.tail_suffix p)
  have hl := (pbReadLength_suffix p).trans (List.tail_suffix p)
  rw [appendRepeated] at h
  split at h
  next =>
    split at h
    next hread => cases h; rwa [hread] at hv
    next => cases h
  split at h
  next =>
    split at h
    next hread => cases h; rwa [hread] at hl
    next => cases h
  next => exact skip_suffix h

theorem PortLoop.advances {handler : Handler σ} (h : PortLoop handler) : handler.Advances := by
  cases h with
  | table fields => exact switchOn_advances fields
  | routeDiscovery =>
    intro fld wt p s s' p' h
    unfold routeDiscoveryFields at h
    split_ifs at h
    · exact appendRepeated_suffix h
    · exact skip_suffix h
  | traceroute =>
    intro fld wt p s s' p' h
    unfold tracerouteFields at h
    split_ifs at h
    iterate 4
      obtain ⟨r, hr, hs⟩ := Option.map_eq_some_iff.mp h
      cases hs
      exact appendRepeated_suffix hr
    exact skip_suffix h
  | admin =>
    intro fld wt p s s' p' h
    have hl := (pbReadLength_suffix p).trans (List.tail_suffix p)
    unfold adminFields at h
    split at h
    next =>
      split at h
      next hread => cases h; rwa [hread] at hl
      next => cases h
    next => exact skip_suffix h
  | storeforward =>
    intro fld wt p s s' p' h
    unfold storeforwardFields at h
    split_ifs at h
    iterate 3 exact Reader.read_suffix _ h
    exact skip_suffix h

theorem movesOn_packedCursors (fuel : Nat) (p : List Byte) (arr : List α) :
    (packedCursors element fuel p arr).IsChain MovesOn := by
  induction fuel generalizing p arr with
  | zero => exact .nil
  | succ fuel ih =>
    rw [packedCursors]
    split
    next => exact .singleton p
    next hgo =>
    split
    next v q hread =>
      have hq := pbReadVarint_suffix p
      rw [hread] at hq
      cases fuel with
      | zero => exact .singleton p
      | succ fuel =>
        have hnext := ih q (arr ++ [element v])
        rw [packedCursors] at hnext ⊢
        exact hnext.cons_cons (movesOn_of_tail (fun hp => hgo (.inl hp)) hq)
    next => exact .singleton p

/-- **Progress.** A read moves the cursor on inside the buffer and hands out what it passed; in every
loop the cursor moves on by a byte or more from one iteration to the next. -/
theorem readers_progress :
    (∀ p, (pbReadVarint p).2 <:+ p.tail) ∧
    (∀ p tag rest, pbReadTag p = some (tag, rest) → rest <:+ p.tail) ∧
    (∀ p, (pbReadFixed32 p).2 <:+ p) ∧ (∀ p rest, pbSkipFixed64 p = some rest → rest <:+ p) ∧
    (∀ p, (pbReadLength p).2 <:+ p.tail) ∧
    (∀ p slice rest, pbReadLength p = (some slice, rest) → slice ++ rest <:+ p.tail) ∧
    (∀ p wt rest, pbSkipValue p wt = some rest → rest <:+ p) ∧
    (∀ {σ : Type} (handler : Handler σ), PortLoop handler → ∀ fuel p s,
      (cursors handler fuel p s).IsChain MovesOn) ∧
    (∀ {α : Type} (element : BitVec 64 → α) fuel p arr,
      (packedCursors element fuel p arr).IsChain MovesOn) ∧
    meshDecodeAdmin = decodeWhole adminFields (fun s => s.variantField != 0 || s.hasSessionPasskey) {} ∧
    meshDecodeStoreforward = decodeWhole storeforwardFields (fun _ => true) {} :=
  ⟨pbReadVarint_suffix, fun _ _ _ => pbReadTag_suffix, pbReadFixed32_suffix,
    fun _ _ => pbSkipFixed64_suffix, pbReadLength_suffix, fun _ _ _ => pbReadLength_slice,
    fun _ _ _ => pbSkipValue_suffix, fun _ h => movesOn_cursors h.advances,
    fun _ => movesOn_packedCursors, rfl, rfl⟩

end MeshcoreSniffer.Meshtastic
