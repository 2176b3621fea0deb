import MeshcoreSniffer.Dedup.Ring
import MeshcoreSniffer.Meshcore.Decoders

/-!
# The drainer

`onLoraFrame` puts a frame into the dedup ring, the drainer thread hands the best replica of each
expired cluster to the packet decoder. `drainStep` is any interleaving of the two; its outputs are
the decoder calls.
-/

namespace MeshcoreSniffer.Pipeline

open Lib Lora Dedup Meshcore List

structure FrameEmitCtx where
  channelId : Int
  hasCrc : Bool
  payloadCrcOk : Bool
  crcCorrected : Bool
  crcCorrectedBits : Nat
  stationTNs : Nat
  preambleLockSampleIdx : BitVec 64

/-- A call of `meshcore_packet_decode_with_radio` with `on_mesh_event` and its
context. -/
structure DecodeCall where
  frame : List Byte
  radio : Radio
  ctx : FrameEmitCtx

def decodeCall (frame : List Byte) (m : FrameMeta) (user : Int) (firstSeenTNs : Nat) : DecodeCall where
  frame := frame
  radio := ⟨m.snrDb, m.sf, m.cr, m.bwHz⟩
  ctx :=
    { channelId := user
      hasCrc := m.hasCrc
      payloadCrcOk := m.payloadCrcOk
      crcCorrected := m.crcCorrected
      crcCorrectedBits := m.crcCorrectedBits
      stationTNs := firstSeenTNs
      preambleLockSampleIdx := m.preambleLockSampleIdx }

def dedupEmitLocked (e : Entry) : DecodeCall :=
  decodeCall e.bestPayload e.bestMeta e.bestUser e.firstSeenTNs

def drainBatch : Nat := 64

def expired (nowUs : Nat) (e : Entry) : Bool := e.inUse && decide (e.emitAtUs ≤ nowUs)

def release (e : Entry) : Entry := { e with inUse := false }

/-- Copy out and free up to `batch` clusters that are `due`. -/
def sweep (due : Entry → Bool) (batch : Nat) (r : Ring) : Ring × List Entry :=
  let scanned := Slots.collect due release batch r.slots
  (⟨scanned.1, by rw [Slots.length_collect, r.size]⟩, scanned.2)

/-- One tick of `dedup_drainer_thread`. -/
def drainerTick (r : Ring) (nowUs : Nat) : Ring × List DecodeCall :=
  let swept := sweep (expired nowUs) drainBatch r
  (swept.1, swept.2.map dedupEmitLocked)

def drainerStop (r : Ring) : Ring × List DecodeCall :=
  let swept := sweep (·.inUse) ringSize r
  (swept.1, swept.2.map dedupEmitLocked)

def onLoraFrame (r : Ring) (f : Frame) (user : Int) (nowUs realtimeNs : Nat) : Ring :=
  dedupBuffer r f.delivered (some f.frameMeta) user nowUs realtimeNs

inductive DrainInput where
  | frame (f : Frame) (user : Int) (nowUs realtimeNs : Nat)
  | tick (nowUs : Nat)
  | stop

def drainStep (r : Ring) : DrainInput → Ring × List DecodeCall
  | .frame f user nowUs realtimeNs => (onLoraFrame r f user nowUs realtimeNs, [])
  | .tick nowUs => drainerTick r nowUs
  | .stop => drainerStop r

/-! ## Draining one cluster -/

theorem live_sweep {due : Entry → Bool} (hdue : ∀ e, due e = true → e.inUse = true)
    (batch : Nat) (r : Ring) :
    (sweep due batch r).1.live =
        (Slots.collect due release batch r.live).1.filter (·.inUse) ∧
      (sweep due batch r).2 = (r.live.filter due).take batch := by
  constructor
  · exact Slots.filter_collect due release hdue (fun _ => rfl) batch r.slots
  · have hsub : r.live.filter due = r.slots.filter due := by
      rw [Ring.live, filter_filter]
      refine filter_congr fun e _ => ?_
      cases h : due e with
      | true => simp [hdue e h]
      | false => simp
    rw [hsub]
    exact Slots.collect_snd due release batch r.slots

theorem inUse_of_expired (nowUs : Nat) (e : Entry) (h : expired nowUs e = true) :
    e.inUse = true := by
  rw [expired, Bool.and_eq_true] at h
  exact h.1

theorem drainerTick_lone {r : Ring} {e : Entry} (hlive : r.live = [e]) (nowUs : Nat) :
    (drainerTick r nowUs).1.live = (if e.emitAtUs ≤ nowUs then [] else [e]) ∧
      (drainerTick r nowUs).2 = if e.emitAtUs ≤ nowUs then [dedupEmitLocked e] else [] := by
  have huse : e.inUse = true := by
    have hmem : e ∈ r.live := by simp [hlive]
    exact (mem_filter.mp hmem).2
  obtain ⟨hring, hout⟩ := live_sweep (inUse_of_expired nowUs) drainBatch r
  rw [drainerTick]
  dsimp only
  rw [hring, hout, hlive]
  by_cases h : e.emitAtUs ≤ nowUs
  · simp [Slots.collect, expired, huse, h, release, drainBatch]
  · simp [Slots.collect, expired, huse, h, drainBatch]

theorem drainerTick_empty {r : Ring} (hlive : r.live = []) (nowUs : Nat) :
    (drainerTick r nowUs).1.live = [] ∧ (drainerTick r nowUs).2 = [] := by
  obtain ⟨hring, hout⟩ := live_sweep (inUse_of_expired nowUs) drainBatch r
  rw [drainerTick]
  dsimp only
  rw [hring, hout, hlive]
  simp [Slots.collect, drainBatch]

theorem run_ticks_empty {r : Ring} (hlive : r.live = []) (ticks : List Nat) :
    (Mealy.run drainStep r (ticks.map .tick)).2 = [] := by
  induction ticks generalizing r with
  | nil => rfl
  | cons t ticks ih =>
    obtain ⟨hring, hout⟩ := drainerTick_empty hlive t
    rw [map_cons, Mealy.run]
    dsimp only [drainStep]
    rw [hout, ih hring, append_nil]

/-- **Exactly once.** A lone cluster comes out at the first tick past its window and never again. -/
theorem run_ticks_lone {r : Ring} {e : Entry} (hlive : r.live = [e]) (ticks : List Nat) :
    (Mealy.run drainStep r (ticks.map .tick)).2 =
      if ∃ t ∈ ticks, e.emitAtUs ≤ t then [dedupEmitLocked e] else [] := by
  induction ticks generalizing r with
  | nil => simp [Mealy.run]
  | cons t ticks ih =>
    obtain ⟨hring, hout⟩ := drainerTick_lone hlive t
    rw [map_cons, Mealy.run]
    dsimp only [drainStep]
    rw [hout]
    by_cases h : e.emitAtUs ≤ t
    · rw [if_pos h] at hring
      rw [run_ticks_empty hring]
      simp [h]
    · rw [if_neg h] at hring
      rw [ih hring]
      simp [h]

/-! ## From the demodulator to the decoder -/

section LoneFrame

variable {r : Ring} {f : Frame} {raw : List Byte} (user : Int) (nowUs realtimeNs : Nat)

theorem run_short_frame (hempty : r.live = []) (hf : f.delivered = some raw)
    (hshort : raw.length < 14) (ticks : List Nat) :
    (Mealy.run drainStep r (.frame f user nowUs realtimeNs :: ticks.map .tick)).2 = [] := by
  rw [Mealy.run]
  dsimp only [drainStep, onLoraFrame]
  rw [hf, nil_append, dedupBuffer, if_pos (Or.inl hshort)]
  exact run_ticks_empty hempty ticks

theorem run_long_frame (hempty : r.live = []) (hf : f.delivered = some raw)
    (hlong : 14 ≤ raw.length) (hlen : raw.length ≤ maxPayload) {ticks : List Nat}
    (hover : ∃ t ∈ ticks, nowUs + windowUs ≤ t) :
    (Mealy.run drainStep r (.frame f user nowUs realtimeNs :: ticks.map .tick)).2 =
      [decodeCall raw f.frameMeta user realtimeNs] := by
  have hguard : ¬(raw.length < 14 ∨ maxPayload < raw.length) := by omega
  obtain ⟨e, hlive⟩ :=
    r.live_insert_of_empty hempty ⟨raw, some f.frameMeta, user, nowUs, realtimeNs⟩
  rw [Mealy.run]
  dsimp only [drainStep, onLoraFrame]
  rw [hf, nil_append, dedupBuffer, if_neg hguard, run_ticks_lone hlive]
  exact if_pos hover

end LoneFrame

/-- **Nothing is lost before the decoder, from fourteen bytes on.** A frame that the parser accepts,
delivered as good to an empty ring, is handed to the decoder exactly once, byte for byte, if and
only if it has at least fourteen bytes. -/
theorem lone_frame_decoded_once {raw : List Byte} {pkt : Packet}
    (hparse : meshcorePacketParse raw = some pkt) (hlen : raw.length ≤ 256)
    {f : Frame} (hf : f.delivered = some raw) (hgood : f.frameMeta.payloadCrcOk = true)
    {r : Ring} (hempty : r.live = []) (user : Int) (nowUs realtimeNs : Nat)
    {ticks : List Nat} (hover : ∃ t ∈ ticks, nowUs + windowUs ≤ t) :
    (∃ call, (Mealy.run drainStep r (.frame f user nowUs realtimeNs :: ticks.map .tick)).2 = [call] ∧
        call.frame = raw ∧ call.ctx.payloadCrcOk = true ∧
        meshcorePacketParse call.frame = some pkt) ↔
      14 ≤ raw.length := by
  constructor
  · rintro ⟨call, hout, -⟩
    by_contra hshort
    rw [run_short_frame user nowUs realtimeNs hempty hf (not_le.mp hshort) ticks] at hout
    cases hout
  · intro hlong
    exact ⟨_, run_long_frame user nowUs realtimeNs hempty hf hlong hlen hover, rfl, hgood, hparse⟩

def emptyRing : Ring where
  slots := List.replicate ringSize
    { inUse := false, fp := 0, sf := 0, bwHz := 0, emitAtUs := 0, firstSeenTNs := 0
      bestSnrDb := 0, bestPayload := [], bestMeta := ⟨0, 0, 0, 0, false, false, false, false, 0, 0, 0⟩
      bestUser := 0, replicaCount := 0, minSlotId := 0, maxSlotId := 0 }
  size := List.length_replicate

theorem live_emptyRing : emptyRing.live = [] :=
  filter_eq_nil_iff.mpr fun e he => by
    rw [eq_of_mem_replicate he]
    exact Bool.false_ne_true

def goodFrame (raw : List Byte) : Frame where
  payload := some raw
  payloadLen := raw.length
  frameMeta :=
    { sf := 8, cr := 1, bwHz := 62500, payloadLen := raw.length, hasCrc := true
      headerCrcOk := true, payloadCrcOk := true }

theorem delivered_goodFrame (raw : List Byte) : (goodFrame raw).delivered = some raw := by
  simp [goodFrame, Frame.delivered]

def floodPacket : List Byte :=
  [0x11, 0x02, 0xA1, 0xB2, 0x01, 0x02, 0x03, 0x04, 0x05, 0x06, 0x07, 0x08, 0x09, 0x0A]

theorem lone_frame_decoded_once_flood :
    ∃ pkt, meshcorePacketParse floodPacket = some pkt ∧
      ∃ call, (Mealy.run drainStep emptyRing
          (.frame (goodFrame floodPacket) 3 1000 0 :: [6000, 31000, 36000].map .tick)).2 = [call] ∧
        call.frame = floodPacket ∧ call.ctx.payloadCrcOk = true ∧
        meshcorePacketParse call.frame = some pkt := by
  have hsome : (meshcorePacketParse floodPacket).isSome := by decide
  obtain ⟨pkt, hparse⟩ := Option.isSome_iff_exists.mp hsome
  refine ⟨pkt, hparse, ?_⟩
  exact (lone_frame_decoded_once hparse (by decide) (delivered_goodFrame floodPacket) rfl
    live_emptyRing 3 1000 0 ⟨31000, by decide, by decide⟩).mpr (by decide)

def zeroHopAck : List Byte := [0x0D, 0x00, 0xEF, 0xBE, 0xAD, 0xDE]

/-- The parser accepts it and the decoder would report it, but the ring never
hands it over. -/
theorem zero_hop_ack_never_decoded :
    (∃ pkt, meshcorePacketParse zeroHopAck = some pkt) ∧
      (goodFrame zeroHopAck).delivered = some zeroHopAck ∧
      (goodFrame zeroHopAck).frameMeta.payloadCrcOk = true ∧ emptyRing.live = [] ∧
      (Mealy.run drainStep emptyRing
        (.frame (goodFrame zeroHopAck) 3 1000 0 :: [6000, 31000, 36000].map .tick)).2 = [] := by
  have hsome : (meshcorePacketParse zeroHopAck).isSome := by decide
  have hdel := delivered_goodFrame zeroHopAck
  refine ⟨Option.isSome_iff_exists.mp hsome, hdel, rfl, live_emptyRing, ?_⟩
  exact run_short_frame 3 1000 0 live_emptyRing hdel (by decide) _

end MeshcoreSniffer.Pipeline
