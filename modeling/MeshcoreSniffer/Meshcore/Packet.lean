import MeshcoreSniffer.Lib.BitFlip

/-!
# MeshCore packets

The framing of `meshcore_packet.c`; a `Packet` carries the bounds of its two buffers.
`AuthenticUnder` is what `meshcoreVerifyAndDecrypt` certifies.
-/

namespace MeshcoreSniffer.Meshcore

open Lib

inductive RouteType where
  | transportFlood
  | flood
  | direct
  | transportDirect
  deriving DecidableEq, Repr

def RouteType.ofCode : BitVec 2 → RouteType
  | 0 => .transportFlood
  | 1 => .flood
  | 2 => .direct
  | _ => .transportDirect

def RouteType.hasTransportCodes : RouteType → Bool
  | .transportFlood | .transportDirect => true
  | .flood | .direct => false

inductive PayloadType where
  | req
  | response
  | txtMsg
  | ack
  | advert
  | grpTxt
  | grpData
  | anonReq
  | path
  | trace
  | multipart
  | control
  | unassigned (n : Fin 3)
  | rawCustom
  deriving DecidableEq, Repr

def PayloadType.ofCode : BitVec 4 → PayloadType
  | 0 => .req
  | 1 => .response
  | 2 => .txtMsg
  | 3 => .ack
  | 4 => .advert
  | 5 => .grpTxt
  | 6 => .grpData
  | 7 => .anonReq
  | 8 => .path
  | 9 => .trace
  | 10 => .multipart
  | 11 => .control
  | 12 => .unassigned 0
  | 13 => .unassigned 1
  | 14 => .unassigned 2
  | _ => .rawCustom

def PayloadType.name : PayloadType → String
  | .req => "REQ"
  | .response => "RESPONSE"
  | .txtMsg => "TXT_MSG"
  | .ack => "ACK"
  | .advert => "ADVERT"
  | .grpTxt => "GRP_TXT"
  | .grpData => "GRP_DATA"
  | .anonReq => "ANON_REQ"
  | .path => "PATH"
  | .trace => "TRACE"
  | .multipart => "MULTIPART"
  | .control => "CONTROL"
  | .unassigned _ => "UNKNOWN"
  | .rawCustom => "RAW_CUSTOM"

def maxPathSize : Nat := 64

def maxPacketPayload : Nat := 184

structure Packet where
  routeType : RouteType
  payloadType : PayloadType
  payloadVer : BitVec 2
  transportCode1 : BitVec 16
  transportCode2 : BitVec 16
  pathHashCount : Nat
  pathHashSize : Nat
  path : List Byte
  payload : List Byte
  path_length : path.length = pathHashCount * pathHashSize
  path_le : path.length ≤ maxPathSize
  payload_le : payload.length ≤ maxPacketPayload
  deriving DecidableEq

def Packet.hasTransportCodes (pkt : Packet) : Bool := pkt.routeType.hasTransportCodes

def rdLe16 (p : List Byte) : BitVec 16 :=
  (p.getD 0 0).setWidth 16 ||| ((p.getD 1 0).setWidth 16 <<< 8)

def rdLe32 (p : List Byte) : BitVec 32 :=
  (p.getD 0 0).setWidth 32 ||| ((p.getD 1 0).setWidth 32 <<< 8) |||
    ((p.getD 2 0).setWidth 32 <<< 16) ||| ((p.getD 3 0).setWidth 32 <<< 24)

def readTransportCodes (route : RouteType) (p : List Byte) :
    Option ((BitVec 16 × BitVec 16) × List Byte) :=
  if route.hasTransportCodes then
    if p.length < 4 then none else some ((rdLe16 p, rdLe16 (p.drop 2)), p.drop 4)
  else some ((0, 0), p)

def meshcorePacketParse (raw : List Byte) : Option Packet :=
  if raw.length < 2 then none
  else
    let header := raw.getD 0 0
    let route := RouteType.ofCode (header.setWidth 2)
    (readTransportCodes route (raw.drop 1)).bind fun (codes, p) =>
      match p with
      | [] => none
      | pathLenByte :: p =>
        let count := (pathLenByte &&& 0x3F).toNat
        let size := (pathLenByte >>> 6).toNat + 1
        if size < 1 ∨ 3 < size then none
        else if hcap : maxPathSize < count * size then none
        else if hfits : p.length < count * size then none
        else
          some
            { routeType := route
              payloadType := PayloadType.ofCode ((header >>> 2).setWidth 4)
              payloadVer := (header >>> 6).setWidth 2
              transportCode1 := codes.1
              transportCode2 := codes.2
              pathHashCount := count
              pathHashSize := size
              path := p.take (count * size)
              payload := (p.drop (count * size)).take maxPacketPayload
              path_length := List.length_take_of_le (not_lt.mp hfits)
              path_le := (List.length_take_le _ _).trans (not_lt.mp hcap)
              payload_le := List.length_take_le _ _ }

example : (meshcorePacketParse [0x0D, 0x00, 0xEF, 0xBE, 0xAD, 0xDE]).map
    (fun pkt => (pkt.payloadType, pkt.path, pkt.payload)) =
      some (.ack, [], [0xEF, 0xBE, 0xAD, 0xDE]) := by decide

/-! ## Channel cryptography -/

/-- The primitives the sniffer takes from its cryptographic library. -/
structure Crypto where
  /-- HMAC-SHA256 of a message under a key. -/
  hmacSha256 : List Byte → List Byte → List Byte
  /-- One AES-128 block, decrypted under a key. -/
  aes128Decrypt : List Byte → List Byte → List Byte
  /-- Ed25519: public key, message, signature. -/
  ed25519Verify : List Byte → List Byte → List Byte → Bool
  /-- A digest is long enough for the truncated code. -/
  two_le_hmac : ∀ key msg, 2 ≤ (hmacSha256 key msg).length
  /-- A block decrypts to a block. -/
  length_aes : ∀ key block, block.length = 16 → (aes128Decrypt key block).length = 16

def cipherMacSize : Nat := 2

def pubKeySize : Nat := 32

def cipherBlockSize : Nat := 16

def signatureSize : Nat := 64

variable (c : Crypto)

/-- Under a 32-byte key, zero-padded, and cut to two bytes. -/
def macOf (secret ciphertext : List Byte) : List Byte :=
  (c.hmacSha256 (secret ++ List.replicate (pubKeySize - secret.length) 0) ciphertext).take
    cipherMacSize

def ecbDecrypt (key : List Byte) : Nat → List Byte → List Byte
  | 0, _ => []
  | blocks + 1, input =>
    c.aes128Decrypt key (input.take cipherBlockSize) ++
      ecbDecrypt key blocks (input.drop cipherBlockSize)

/-- The plaintext when the code matches. -/
def meshcoreVerifyAndDecrypt (secret encWithMac : List Byte) : Option (List Byte) :=
  if secret.length ≠ 16 ∧ secret.length ≠ 32 then none
  else if encWithMac.length < cipherMacSize then none
  else
    let ciphertext := encWithMac.drop cipherMacSize
    if macOf c secret ciphertext ≠ encWithMac.take cipherMacSize then none
    else
      let blocks := (ciphertext.length + cipherBlockSize - 1) / cipherBlockSize
      let padded := ciphertext ++ List.replicate (blocks * cipherBlockSize - ciphertext.length) 0
      if maxPacketPayload + cipherBlockSize < padded.length then none
      else some ((ecbDecrypt c (secret.take 16) blocks padded).take ciphertext.length)

def AuthenticUnder (secret encWithMac : List Byte) : Prop :=
  cipherMacSize ≤ encWithMac.length ∧
    macOf c secret (encWithMac.drop cipherMacSize) = encWithMac.take cipherMacSize

theorem authentic_of_verifyAndDecrypt {secret enc plain : List Byte}
    (h : meshcoreVerifyAndDecrypt c secret enc = some plain) : AuthenticUnder c secret enc := by
  unfold meshcoreVerifyAndDecrypt at h
  split at h
  next => cases h
  next =>
    split at h
    next => cases h
    next hlen =>
      dsimp only at h
      split at h
      next => cases h
      next hmac => exact ⟨not_lt.mp hlen, not_not.mp hmac⟩

end MeshcoreSniffer.Meshcore
