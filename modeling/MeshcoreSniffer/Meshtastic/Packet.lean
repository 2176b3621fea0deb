import MeshcoreSniffer.Meshcore.Decoders
import MeshcoreSniffer.Meshtastic.Keyset
import MeshcoreSniffer.Meshtastic.Decoders

/-!
# Events and the Meshtastic packet decoder

`FeedEvent` is `mesh_event_t` as the feed reads it. `meshPacketDecodeWithRadio` parses the radio
header, tries the keys filed under the channel hash and reads the data envelope. The cipher is a
parameter.
-/

namespace MeshcoreSniffer.Meshtastic

open Lib Lib.Printf
open Meshcore

/-! ## Events -/

structure RadioEvent extends MeshEvent where
  rssiDb : CFloat := .fin false 0
  freqHz : BitVec 64 := 0

structure MeshHeader where
  toNode : BitVec 32 := 0
  fromNode : BitVec 32 := 0
  packetId : BitVec 32 := 0
  flags : Byte := 0
  channel : Byte := 0
  nextHop : Byte := 0
  relayNode : Byte := 0

structure FeedEvent extends RadioEvent where
  header : MeshHeader := {}
  hopLimit : Nat := 0
  hopStart : Nat := 0
  wantAck : Bool := false
  viaMqtt : Bool := false
  presetName : List Byte := []
  cfoHz : CFloat := .fin false 0
  stationTAccNs : BitVec 32 := 0
  sampleRateSps : BitVec 64 := 0
  preambleLockSampleFrac : CFloat := .fin false 0
  preambleLockTNs : BitVec 64 := 0
  portnum : BitVec 32 := 0
  /-- `none` where the pointer is null. -/
  payload : Option (List Byte) := none

/-! ## The radio header -/

def meshHeaderBytes : Nat := 16

def parseHeader (frame : List Byte) (ev : FeedEvent) : FeedEvent :=
  let flags := frame.getD 12 0
  { ev with
    header :=
      { toNode := rdLe32 frame
        fromNode := rdLe32 (frame.drop 4)
        packetId := rdLe32 (frame.drop 8)
        flags := flags
        channel := frame.getD 13 0
        nextHop := frame.getD 14 0
        relayNode := frame.getD 15 0 }
    hopLimit := (flags &&& 0x07).toNat
    hopStart := ((flags &&& 0xE0) >>> 5).toNat
    wantAck := flags &&& 0x08 != 0
    viaMqtt := flags &&& 0x10 != 0 }

def le32 (v : BitVec 32) : List Byte :=
  [v.setWidth 8, (v >>> 8).setWidth 8, (v >>> 16).setWidth 8, (v >>> 24).setWidth 8]

def buildNonce (packetId fromNode : BitVec 32) : List Byte :=
  le32 packetId ++ [0, 0, 0, 0] ++ le32 fromNode ++ [0, 0, 0, 0]

/-- Channel name, spreading factor, coding rate, the two bandwidths. -/
def meshPresets : List (String × Nat × Nat × Nat × Nat) :=
  [ ("ShortTurbo", 7, 5, 500000, 1625000),
    ("ShortFast", 7, 5, 250000, 812000),
    ("ShortSlow", 8, 5, 250000, 812000),
    ("MediumFast", 9, 5, 250000, 812000),
    ("MediumSlow", 10, 5, 250000, 812000),
    ("LongFast", 11, 5, 250000, 812000),
    ("LongMod", 11, 8, 125000, 406000),
    ("LongSlow", 12, 8, 125000, 406000),
    ("LongTurbo", 11, 8, 500000, 1625000) ]

def presetName (sf cr bwHz : Nat) : List Byte :=
  if sf = 0 then []
  else
    match meshPresets.find? fun p =>
      p.2.1 == sf && p.2.2.1 == cr && (p.2.2.2.1 == bwHz || p.2.2.2.2 == bwHz) with
    | some p => ascii p.1
    | none => []

/-! ## The data envelope -/

structure Envelope where
  portnum : BitVec 32 := 0
  payload : Option (List Byte) := none
  wantResponse : Bool := false
  requestId : BitVec 32 := 0
  replyId : BitVec 32 := 0

def envelopeFields : List (Nat × Reader Envelope) :=
  [ (1, .varint fun v s => { s with portnum := low32 v }),
    (2, .bytes fun v s => { s with payload := some v }),
    (3, .varint fun v s => { s with wantResponse := v != 0 }),
    (6, .fixed32 fun v s => { s with requestId := v }),
    (7, .fixed32 fun v s => { s with replyId := v }) ]

def parseDataEnvelope : List Byte → Option Envelope :=
  decodeWhole (switchOn envelopeFields) (fun s => s.portnum.toNat ≤ 1024) {}

/-! ## Decoding -/

abbrev AesCtr := List Byte → List Byte → List Byte → List Byte

def plaintext (aesCtr : AesCtr) (psk nonce cipher : List Byte) : Option (List Byte) :=
  if psk = [] then some cipher
  else if psk.length = 16 ∨ psk.length = 32 then some (aesCtr psk nonce cipher)
  else none

def openEnvelope (aesCtr : AesCtr) (keys : Keyset) (ev : FeedEvent) (cipher : List Byte) :
    Option (KeysetEntry × Envelope) :=
  let nonce := buildNonce ev.header.packetId ev.header.fromNode
  (keys.buckets ev.header.channel).findSome? fun i =>
    match keys.entries[i]? with
    | none => none
    | some e =>
      match plaintext aesCtr e.psk nonce (cipher.take 512) with
      | none => none
      | some text => (parseDataEnvelope text).map (e, ·)

def meshPacketDecodeWithRadio (aesCtr : AesCtr) (keys : Option Keyset) (frame : List Byte)
    (rssiDb : CFloat) (snrDb : ℚ) (sf cr bwHz : Nat) : Option FeedEvent :=
  if frame.length < meshHeaderBytes then none
  else
    let ev : FeedEvent := parseHeader frame
      { rssiDb := rssiDb
        snrDb := snrDb
        sf := sf
        cr := cr
        bwHz := bwHz
        slotId := -1
        rawHex := hexDump (frame.take 256) 513
        presetName := presetName sf cr bwHz }
    let cipher := frame.drop meshHeaderBytes
    if cipher = [] then some { ev with decrypted := true }
    else
      match keys.bind fun k => openEnvelope aesCtr k ev cipher with
      | some (e, env) =>
        some
          { ev with
            decrypted := true
            channelName := e.channelName.take 31
            portnum := env.portnum
            payload := env.payload }
      | none => some ev

end MeshcoreSniffer.Meshtastic
