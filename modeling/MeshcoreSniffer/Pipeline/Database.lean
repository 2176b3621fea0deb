import MeshcoreSniffer.Feed.Publish
import MeshcoreSniffer.Meshcore.Channels
import MeshcoreSniffer.Pipeline.Store

/-!
# The events table over time

Rows enter through `on_mesh_event`, and three jobs rewrite them later from their raw bytes; `dbStep`
is one operation. The query of the redecryption job does not look at `crc_ok`.
-/

namespace MeshcoreSniffer.Pipeline

open Lib Lib.Printf Meshcore Meshtastic Feed List

/-! ## Rows -/

/-- With the signal level, which the jobs put back into the event. -/
structure DbRow extends StoredRow where
  rssiDb : CFloat

/-- SQLite holds no NaN, and zero is stored as `NULL`, which reads as zero. -/
def columnDouble : CFloat → CFloat
  | .nan _ => .fin false 0
  | v => if isZero v then .fin false 0 else v

def meshtasticText (ev : FeedEvent) : Option (List Byte) :=
  if ev.decrypted ∧ ev.portnum = 1 then
    match ev.payload with
    | none | some [] => none
    | some p => some (cString (p.take 255))
  else none

def dbRowOf (clock : ℚ) (ev : FeedEvent) (jsonLine : List Byte) : DbRow :=
  let row := storeEvent clock ev.toMeshEvent jsonLine
  { row with
    text := if ev.isMeshcore then row.text else meshtasticText ev
    rssiDb := columnDouble ev.rssiDb }

/-! ## Live events -/

/-- A received frame, with what the receiver and the station know besides. -/
structure Reception where
  frame : List Byte
  radio : Radio
  rssiDb : CFloat := .fin false 0
  freqHz : BitVec 64 := 0
  ctx : Option FrameEmitCtx
  station : Station := {}
  ts : CFloat := .fin false 0
  clock : ℚ := 0
  disk : Disk := { today := 0, opens := true, writes := true }

structure Config where
  env : Env
  aesCtr : AesCtr
  keys : Option Keyset
  trustedOnly : Bool

def meshcoreLive (cfg : Config) (channels : ChannelSet) (r : Reception) : Option FeedEvent :=
  (meshcorePacketDecodeWithRadio cfg.env (some channels) r.radio r.frame).map fun ev =>
    { toMeshEvent := onMeshEvent ev r.ctx, rssiDb := r.rssiDb, freqHz := r.freqHz }

def meshtasticLive (cfg : Config) (r : Reception) : Option FeedEvent :=
  (meshPacketDecodeWithRadio cfg.aesCtr cfg.keys r.frame r.rssiDb r.radio.snrDb r.radio.sf
    r.radio.cr r.radio.bwHz).map fun ev =>
    { ev with toMeshEvent := onMeshEvent ev.toMeshEvent r.ctx, freqHz := r.freqHz }

def insertedRow (cfg : Config) (r : Reception) (ev : FeedEvent) : Option DbRow :=
  let p : Publication := { station := r.station, ts := r.ts, disk := r.disk, event := ev }
  if p.passes cfg.trustedOnly then some (dbRowOf r.clock ev p.line) else none

/-! ## The jobs -/

def rowLine (row : DbRow) (ev : MeshEvent) : List Byte :=
  (feedSerializeEventMeshcore (jwInit lineCap) {} (.ofRat row.ts)
    { toMeshEvent := ev, rssiDb := row.rssiDb }).buf

def undecryptedRawHex (hash : Byte) (row : DbRow) : Option (List Byte) :=
  if row.meshcore && row.channelHash == some hash && !row.decrypted &&
      (row.payloadType == .grpTxt || row.payloadType == .grpData) then row.rawHex
  else none

def decodeGroup (env : Env) (channels : ChannelSet) (pkt : Packet) (ev : MeshEvent) :
    Option MeshEvent :=
  if pkt.payloadType = .grpTxt then meshcoreDecodeGrpTxt env (some channels) pkt ev
  else if pkt.payloadType = .grpData then meshcoreDecodeGrpData env (some channels) pkt ev
  else none

/-- `meshcore_redecrypt_channel` up to the update. -/
def reopen (env : Env) (channels : ChannelSet) (radio : Radio) (hex : List Byte) :
    Option MeshEvent :=
  match hexDecode hex 256 with
  | none | some [] => none
  | some frame =>
    match meshcorePacketParse frame with
    | none => none
    | some pkt =>
      let ev := { frameEvent env frame radio pkt with rawHex := hex }
      (decodeGroup env channels pkt ev).filter (·.decrypted)

def dbSqliteApplyRedecrypt (row : DbRow) (ev : MeshEvent) : DbRow :=
  { row with
    decrypted := true
    channelName := nonEmpty ev.channelName
    text := nonEmpty ev.mcText
    json := nonEmpty (rowLine row ev) }

def reopened (env : Env) (hash : Byte) (channels : ChannelSet) (row : DbRow) : Option MeshEvent :=
  (undecryptedRawHex hash row).bind (reopen env channels row.radio)

/-- `meshcore_redecrypt_channel` on one row. -/
def redecryptRow (env : Env) (hash : Byte) (channels : ChannelSet) (row : DbRow) : DbRow :=
  match reopened env hash channels row with
  | none => row
  | some ev => dbSqliteApplyRedecrypt row ev

/-- `meshcore_crc_recover_scan` on one row, with the line it writes. -/
def crcRecoverRow (env : Env) (channels : ChannelSet) (row : DbRow) : DbRow :=
  match scanRow env channels row.toEventRow with
  | .fixed bits _ ev =>
    { row with
      toEventRow := dbSqliteApplyCrcRecover row.toEventRow bits ev
      json := nonEmpty (rowLine row ev) }
  | _ => row

def telemetryRawHex (row : DbRow) : Option (List Byte) :=
  if row.meshcore && row.payloadType == .grpData && row.decrypted && row.telemetryJson.isNone then
    row.rawHex
  else none

/-- The loop of `meshcore_lpp_recover_scan` up to the update. -/
def lppReopen (env : Env) (channels : ChannelSet) (radio : Radio) (hex : List Byte) :
    Option MeshEvent :=
  match hexDecode hex 256 with
  | none => none
  | some frame =>
    if frame.length < 4 then none
    else
      (meshcorePacketDecodeWithRadio env (some channels) radio frame).filter fun ev =>
        ev.mcPayloadType == .grpData && ev.decrypted && ev.mcTelemetryJson != []

/-- `meshcore_lpp_recover_scan` on one row, with `db_sqlite_apply_telemetry_recover`. -/
def lppRecoverRow (env : Env) (channels : ChannelSet) (row : DbRow) : DbRow :=
  match (telemetryRawHex row).bind (lppReopen env channels row.radio) with
  | none => row
  | some ev =>
    { row with
      telemetryJson := nonEmpty ev.mcTelemetryJson
      json := nonEmpty (rowLine row ev) }

/-! ## The state machine -/

structure DbState where
  channels : ChannelSet
  rows : List DbRow

inductive DbOp where
  | meshcore (r : Reception)
  | meshtastic (r : Reception)
  | addChannel (ch : Channel)
  | crcScan
  | telemetryScan

def dbStep (cfg : Config) (s : DbState) : DbOp → DbState
  | .meshcore r =>
    { s with rows := s.rows ++ ((meshcoreLive cfg s.channels r).bind (insertedRow cfg r)).toList }
  | .meshtastic r =>
    { s with rows := s.rows ++ ((meshtasticLive cfg r).bind (insertedRow cfg r)).toList }
  | .addChannel ch =>
    match addChannelLocked s.channels ch with
    | none => s
    | some cs => { channels := cs, rows := s.rows.map (redecryptRow cfg.env ch.hash cs) }
  | .crcScan => { s with rows := s.rows.map (crcRecoverRow cfg.env s.channels) }
  | .telemetryScan => { s with rows := s.rows.map (lppRecoverRow cfg.env s.channels) }

def dbRun (cfg : Config) (s : DbState) (ops : List DbOp) : DbState := ops.foldl (dbStep cfg) s

/-! ## Failed rows -/

def DbRow.FailedHidden (row : DbRow) : Prop :=
  row.crcOk = some false → row.decrypted = false ∧ row.text = none

variable {ev : FeedEvent} {cfg : Config} {r : Reception} {row : DbRow}

theorem failedHidden_dbRowOf (h : ev.hasCrc = true → ev.payloadCrcOk = false → ev.decrypted = false)
    (clock : ℚ) (jsonLine : List Byte) : (dbRowOf clock ev jsonLine).FailedHidden := by
  intro hfailed
  have hcrc : (if ev.hasCrc then some ev.payloadCrcOk else none) = some false := hfailed
  split at hcrc
  next hhas =>
    have hdecrypted := h hhas (Option.some.inj hcrc)
    refine ⟨hdecrypted, ?_⟩
    simp [dbRowOf, storeEvent, dbSqlitePublish, meshtasticText, hdecrypted]
  next => cases hcrc

theorem failedHidden_inserted
    (h : ev.hasCrc = true → ev.payloadCrcOk = false → ev.decrypted = false) :
    ∀ row ∈ (insertedRow cfg r ev).toList, row.FailedHidden := by
  intro row hrow
  unfold insertedRow at hrow
  dsimp only at hrow
  split at hrow
  next =>
    rw [Option.toList_some, mem_singleton] at hrow
    rw [hrow]
    exact failedHidden_dbRowOf h _ _
  next => cases hrow

theorem failedHidden_live {event : Option FeedEvent}
    (h : ∀ ev, event = some ev → ev.hasCrc = true → ev.payloadCrcOk = false → ev.decrypted = false) :
    ∀ row ∈ (event.bind (insertedRow cfg r)).toList, row.FailedHidden := by
  cases event with
  | none => exact forall_mem_nil _
  | some ev => exact failedHidden_inserted (h ev rfl)

theorem hidden_meshcoreLive {channels : ChannelSet} (h : meshcoreLive cfg channels r = some ev) :
    ev.hasCrc = true → ev.payloadCrcOk = false → ev.decrypted = false := by
  obtain ⟨decoded, hdecode, rfl⟩ := Option.map_eq_some_iff.mp h
  obtain ⟨pkt, hparse, -⟩ := Option.bind_eq_some_iff.mp hdecode
  exact failed_not_decrypted (.meshcore hparse hdecode) r.ctx

theorem hidden_meshtasticLive (h : meshtasticLive cfg r = some ev) :
    ev.hasCrc = true → ev.payloadCrcOk = false → ev.decrypted = false := by
  obtain ⟨decoded, hdecode, rfl⟩ := Option.map_eq_some_iff.mp h
  -- the Meshtastic decoder leaves the MeshCore and CRC fields zeroed
  have hzeroed : Decoded cfg.env none decoded.toMeshEvent := by
    unfold meshPacketDecodeWithRadio at hdecode
    split at hdecode
    next => cases hdecode
    next =>
      dsimp only at hdecode
      split at hdecode
      next =>
        cases hdecode
        exact .meshtastic rfl rfl rfl rfl
      next =>
        split at hdecode <;> cases hdecode <;> exact .meshtastic rfl rfl rfl rfl
  exact failed_not_decrypted hzeroed r.ctx

/-! ## What the jobs do to failed rows -/

theorem failedHidden_crcRecoverRow (h : row.FailedHidden) (env : Env) (channels : ChannelSet) :
    (crcRecoverRow env channels row).FailedHidden := by
  unfold crcRecoverRow
  split
  next =>
    -- the update sets `crc_ok`
    intro hfailed
    cases hfailed
  next => exact h

theorem failedHidden_lppRecoverRow (h : row.FailedHidden) (env : Env) (channels : ChannelSet) :
    (lppRecoverRow env channels row).FailedHidden := by
  unfold lppRecoverRow
  split
  next => exact h
  next =>
    -- neither `crc_ok` nor the plaintext is updated
    intro hfailed
    exact h hfailed

theorem failedHidden_redecryptRow_iff (h : row.FailedHidden) (env : Env) (hash : Byte)
    (channels : ChannelSet) : (redecryptRow env hash channels row).FailedHidden ↔
      (row.crcOk = some false → reopened env hash channels row = none) := by
  unfold redecryptRow
  split
  next hnone => exact ⟨fun _ _ => hnone, fun _ => h⟩
  next ev hsome =>
    constructor
    · intro hhidden hfailed
      cases (hhidden hfailed).1
    · intro hkept hfailed
      rw [hkept hfailed] at hsome
      cases hsome

/-! ## The invariant -/

def OpensFailed (cfg : Config) (s : DbState) : DbOp → Prop
  | .addChannel ch => ∃ cs, addChannelLocked s.channels ch = some cs ∧
      ∃ row ∈ s.rows, row.crcOk = some false ∧ reopened cfg.env ch.hash cs row ≠ none
  | _ => False

def DbState.FailedHidden (s : DbState) : Prop := ∀ row ∈ s.rows, row.FailedHidden

/-- **Step.** Hidden rows stay hidden exactly when the step opens none of them. -/
theorem failedHidden_step_iff {s : DbState} (h : s.FailedHidden) (op : DbOp) :
    (dbStep cfg s op).FailedHidden ↔ ¬OpensFailed cfg s op := by
  cases op with
  | meshcore r =>
    refine ⟨fun _ => not_false, fun _ => forall_mem_append.mpr ⟨h, ?_⟩⟩
    exact failedHidden_live fun ev hev => hidden_meshcoreLive hev
  | meshtastic r =>
    refine ⟨fun _ => not_false, fun _ => forall_mem_append.mpr ⟨h, ?_⟩⟩
    exact failedHidden_live fun ev hev => hidden_meshtasticLive hev
  | crcScan =>
    refine ⟨fun _ => not_false, fun _ => forall_mem_map.mpr fun row hrow => ?_⟩
    exact failedHidden_crcRecoverRow (h row hrow) _ _
  | telemetryScan =>
    refine ⟨fun _ => not_false, fun _ => forall_mem_map.mpr fun row hrow => ?_⟩
    exact failedHidden_lppRecoverRow (h row hrow) _ _
  | addChannel ch =>
    simp only [OpensFailed, dbStep]
    cases hadd : addChannelLocked s.channels ch with
    | none => simpa using h
    | some cs =>
      simp only [DbState.FailedHidden, forall_mem_map, Option.some.injEq, exists_eq_left',
        not_exists, not_and, not_not]
      exact forall₂_congr fun row hrow => failedHidden_redecryptRow_iff (h row hrow) _ _ _

theorem dbRun_snoc (cfg : Config) (s : DbState) (ops : List DbOp) (op : DbOp) :
    dbRun cfg s (ops ++ [op]) = dbStep cfg (dbRun cfg s ops) op := by
  simp [dbRun]

/-- **Run.** Rows with a failed CRC show no plaintext throughout a run exactly when no step of it
adds a channel that opens such a row. -/
theorem failedHidden_iff (cfg : Config) (channels : ChannelSet) (ops : List DbOp) :
    (∀ pre, pre <+: ops → (dbRun cfg ⟨channels, []⟩ pre).FailedHidden) ↔
      ∀ pre op, pre ++ [op] <+: ops → ¬OpensFailed cfg (dbRun cfg ⟨channels, []⟩ pre) op := by
  constructor
  · intro hhidden pre op hpre
    have hbefore := hhidden pre ((prefix_append pre [op]).trans hpre)
    have hafter := hhidden (pre ++ [op]) hpre
    rw [dbRun_snoc] at hafter
    exact (failedHidden_step_iff hbefore op).mp hafter
  · intro hkeeps pre hpre
    induction pre using reverseRecOn with
    | nil => exact forall_mem_nil _
    | append_singleton pre op ih =>
      have hbefore := ih ((prefix_append pre [op]).trans hpre)
      rw [dbRun_snoc]
      exact (failedHidden_step_iff hbefore op).mpr (hkeeps pre op hpre)

def failedReception : Reception where
  frame := groupFrame
  radio := ⟨7, 8, 1, 62500⟩
  ctx := some
    { channelId := 3, hasCrc := true, payloadCrcOk := false, crcCorrected := false
      crcCorrectedBits := 0, stationTNs := 0, preambleLockSampleIdx := 0 }

def standInConfig : Config where
  env := standInEnv
  aesCtr := fun _ _ text => text
  keys := none
  trustedOnly := false

/-- Adding the channel publishes the text of a frame whose CRC failed. -/
theorem failedRow_redecrypted :
    ∃ row ∈ (dbRun standInConfig ⟨⟨[], by decide⟩, []⟩
        [.meshcore failedReception,
          .addChannel { name := [0x50], secret := List.replicate 16 0x8B, hash := 0x11 }]).rows,
      row.crcOk = some false ∧ row.decrypted = true ∧ row.text = some (ascii "hi") := by
  have hrows : (dbRun standInConfig ⟨⟨[], by decide⟩, []⟩
        [.meshcore failedReception,
          .addChannel { name := [0x50], secret := replicate 16 0x8B, hash := 0x11 }]).rows.map
      (fun row => (row.crcOk, row.decrypted, row.text)) =
        [(some false, true, some (ascii "hi"))] := by
    decide +kernel
  have hmem := mem_cons_self (a := (some false, true, some (ascii "hi")))
    (l := ([] : List (Option Bool × Bool × Option (List Byte))))
  rw [← hrows] at hmem
  obtain ⟨row, hrow, hcols⟩ := mem_map.mp hmem
  simp only [Prod.mk.injEq] at hcols
  exact ⟨row, hrow, hcols⟩

end MeshcoreSniffer.Pipeline
