import MeshcoreSniffer.Lib.Slots
import MeshcoreSniffer.Lora.Decoder

/-!
# The dedup ring

`dedup.c` folds a frame into a cluster: by a close fingerprint (tier 1), an adjacent slot at the
same time (tier 2), or, when failed, a cluster with a good replica (tier 3). A good one that opens a
cluster silences the failed ones around it. A free slot keeps its contents: a replica without
metadata inherits them.
-/

namespace MeshcoreSniffer.Dedup

open Lib Lora List

def ringSize : Nat := 512

def windowUs : Nat := 30000

def slotAdjacencyUs : Nat := 500

def slotProximity : Int := 3

def maxPayload : Nat := 256

def noSlot : Int := -32768

structure Entry where
  inUse : Bool
  fp : BitVec 64
  sf : Nat
  bwHz : Nat
  emitAtUs : Nat
  firstSeenTNs : Nat
  bestSnrDb : ℚ
  bestPayload : List Byte
  bestMeta : FrameMeta
  bestUser : Int
  replicaCount : Nat
  minSlotId : Int
  maxSlotId : Int

structure Ring where
  slots : List Entry
  size : slots.length = ringSize

def Ring.live (r : Ring) : List Entry := r.slots.filter (·.inUse)

/-! ## Fingerprint -/

def leWord (bytes : List Byte) : BitVec 64 :=
  bytes.foldr (fun b acc => (acc <<< 8) ||| b.setWidth 64) 0

def dedupPayloadFingerprint (p : List Byte) : BitVec 64 :=
  let words := p.length / 8
  let h := (List.range words).foldl
    (fun h i => (h ^^^ leWord ((p.drop (8 * i)).take 8)).rotateLeft 1) 0
  h ^^^ leWord (p.drop (8 * words))

/-! ## Replicas -/

/-- The arguments of a `dedup_buffer` call, with the two clocks it reads. -/
structure Replica where
  payload : List Byte
  frameMeta : Option FrameMeta
  user : Int
  nowUs : Nat
  realtimeNs : Nat

namespace Replica

variable (rep : Replica)

def sf : Nat := (rep.frameMeta.map (·.sf)).getD 0

def bwHz : Nat := (rep.frameMeta.map (·.bwHz)).getD 0

def snrDb : ℚ := (rep.frameMeta.map (·.snrDb)).getD 0

def crcBad : Bool := (rep.frameMeta.map fun m => m.hasCrc && !m.payloadCrcOk).getD false

def good : Bool := (rep.frameMeta.map (·.payloadCrcOk)).getD false

def fp : BitVec 64 := dedupPayloadFingerprint rep.payload

def thresh : Nat := if rep.crcBad then 22 else 14

def slotIdValid : Bool := decide (0 ≤ rep.user ∧ rep.user < 32767)

def slotId : Int := if rep.slotIdValid then rep.user else noSlot

def sameRadio (e : Entry) : Bool := e.inUse && e.sf == rep.sf && e.bwHz == rep.bwHz

def openedWithin (us : Nat) (e : Entry) : Bool :=
  decide (e.emitAtUs - windowUs ≤ rep.nowUs ∧ rep.nowUs - (e.emitAtUs - windowUs) ≤ us)

def tier1 (e : Entry) : Bool :=
  rep.sameRadio e && decide ((e.fp ^^^ rep.fp).cpop.toNat ≤ rep.thresh)

def tier2 (e : Entry) : Bool :=
  rep.slotIdValid && rep.sameRadio e && e.minSlotId != noSlot &&
    rep.openedWithin slotAdjacencyUs e &&
    decide (e.minSlotId - rep.slotId ≤ slotProximity ∧ rep.slotId - e.maxSlotId ≤ slotProximity)

def tier3 (e : Entry) : Bool :=
  rep.crcBad && rep.sameRadio e && e.bestMeta.payloadCrcOk && rep.openedWithin windowUs e

def findMatch (slots : List Entry) : Option Nat :=
  (slots.findIdx? rep.tier1).or ((slots.findIdx? rep.tier2).or (slots.findIdx? rep.tier3))

def wins (e : Entry) : Bool :=
  if rep.good && !e.bestMeta.payloadCrcOk then true
  else if !rep.good && e.bestMeta.payloadCrcOk then false
  else decide (e.bestSnrDb < rep.snrDb)

def crown (e : Entry) : Entry :=
  if rep.wins e then
    { e with
      bestSnrDb := rep.snrDb
      bestPayload := rep.payload
      bestMeta := rep.frameMeta.getD e.bestMeta
      bestUser := rep.user
      fp := rep.fp }
  else e

def widenSlots (e : Entry) : Entry :=
  if rep.slotIdValid then
    { e with
      minSlotId :=
        if e.minSlotId = noSlot ∨ rep.slotId < e.minSlotId then rep.slotId else e.minSlotId
      maxSlotId :=
        if e.maxSlotId = noSlot ∨ e.maxSlotId < rep.slotId then rep.slotId else e.maxSlotId }
  else e

def fold (e : Entry) : Entry :=
  rep.widenSlots (rep.crown { e with replicaCount := e.replicaCount + 1 })

def suppress (e : Entry) : Entry :=
  if !rep.crcBad && rep.sameRadio e && !e.bestMeta.payloadCrcOk && rep.openedWithin windowUs e then
    { e with inUse := false }
  else e

def openIn (e : Entry) : Entry where
  inUse := true
  fp := rep.fp
  sf := rep.sf
  bwHz := rep.bwHz
  emitAtUs := rep.nowUs + windowUs
  firstSeenTNs := rep.realtimeNs
  bestSnrDb := rep.snrDb
  bestPayload := rep.payload
  bestMeta := rep.frameMeta.getD e.bestMeta
  bestUser := rep.user
  replicaCount := 1
  minSlotId := rep.slotId
  maxSlotId := rep.slotId

end Replica

/-- With no cluster to join and no free slot the replica is dropped. -/
def Ring.insert (r : Ring) (rep : Replica) : Ring :=
  match rep.findMatch r.slots with
  | some i =>
    { slots := r.slots.modify i rep.fold
      size := by rw [List.length_modify, r.size] }
  | none =>
    match r.slots.findIdx? (!·.inUse) with
    | some i =>
      { slots := (r.slots.map rep.suppress).modify i rep.openIn
        size := by rw [List.length_modify, List.length_map, r.size] }
    | none => r

def dedupBuffer (r : Ring) (payload : Option (List Byte)) (frameMeta : Option FrameMeta)
    (user : Int) (nowUs realtimeNs : Nat) : Ring :=
  match payload with
  | none => r
  | some bytes =>
    if bytes.length < 14 ∨ maxPayload < bytes.length then r
    else r.insert ⟨bytes, frameMeta, user, nowUs, realtimeNs⟩

/-! ## A lone replica -/

theorem Replica.findMatch_of_dead (rep : Replica) {slots : List Entry}
    (hdead : ∀ e ∈ slots, e.inUse = false) : rep.findMatch slots = none := by
  have hnone : ∀ tier : Entry → Bool, (∀ e, e.inUse = false → tier e = false) →
      slots.findIdx? tier = none := fun tier htier =>
    findIdx?_eq_none_iff.mpr fun e he => htier e (hdead e he)
  simp only [Replica.findMatch, Option.or_eq_none_iff]
  refine ⟨hnone _ ?_, hnone _ ?_, hnone _ ?_⟩
  · intro e he
    simp [Replica.tier1, Replica.sameRadio, he]
  · intro e he
    simp [Replica.tier2, Replica.sameRadio, he]
  · intro e he
    simp [Replica.tier3, Replica.sameRadio, he]

theorem Ring.live_insert_of_empty {r : Ring} (hempty : r.live = []) (rep : Replica) :
    ∃ e, (r.insert rep).live = [rep.openIn e] := by
  have hdead : ∀ e ∈ r.slots, e.inUse = false := fun e he => by
    simpa using filter_eq_nil_iff.mp hempty e he
  have hpos : 0 < r.slots.length := by
    rw [r.size]
    decide
  -- the first slot of the ring is free
  have hfree : r.slots.findIdx? (!·.inUse) = some 0 := by
    obtain ⟨e, slots, hslots⟩ := exists_cons_of_length_pos hpos
    have he : e.inUse = false := hdead e (by simp [hslots])
    simp [hslots, findIdx?_cons, he]
  have hquiet : r.slots.map rep.suppress = r.slots := by
    refine (map_congr_left fun e he => ?_).trans (map_id _)
    simp [Replica.suppress, Replica.sameRadio, hdead e he]
  refine ⟨r.slots[0], ?_⟩
  simp only [Ring.insert, rep.findMatch_of_dead hdead, hfree, hquiet, Ring.live]
  exact Slots.filter_modify_of_dead hdead hpos rfl

end MeshcoreSniffer.Dedup
