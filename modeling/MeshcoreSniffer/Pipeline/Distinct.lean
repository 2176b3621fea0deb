import MeshcoreSniffer.Dedup.Insert
import MeshcoreSniffer.Pipeline.Drainer

/-!
# Good payloads through the dedup ring

A cluster emits one payload; so a good one comes out unless a good replica with another payload
shares its cluster, by a near fingerprint or a neighbouring slot (`good_payload_emitted`).
-/

namespace MeshcoreSniffer.Pipeline

open Lib Lora Dedup List

def replicaOf (f : Frame) (user : Int) (nowUs realtimeNs : Nat) : Option Replica :=
  f.delivered.bind fun bytes =>
    if bytes.length < 14 ∨ maxPayload < bytes.length then none
    else some ⟨bytes, some f.frameMeta, user, nowUs, realtimeNs⟩

theorem onLoraFrame_eq (r : Ring) (f : Frame) (user : Int) (nowUs realtimeNs : Nat) :
    onLoraFrame r f user nowUs realtimeNs =
      ((replicaOf f user nowUs realtimeNs).map r.insert).getD r := by
  rw [onLoraFrame, dedupBuffer.eq_def, replicaOf]
  cases f.delivered with
  | none => rfl
  | some bytes =>
    simp only [Option.bind_some]
    split
    next => rfl
    next => rfl

def DrainInput.replica : DrainInput → Option Replica
  | .frame f user nowUs realtimeNs => replicaOf f user nowUs realtimeNs
  | .tick _ => none
  | .stop => none

def Holds (p : List Byte) (r : Ring) : Prop :=
  ∃ e ∈ r.slots, e.inUse = true ∧ e.good = true ∧ e.bestPayload = p

/-- A good replica matches no good cluster when one of the two, and only one, has
this payload. -/
def Apart (p : List Byte) (r : Ring) (rep : Replica) : Prop :=
  rep.good = true → ∀ e ∈ r.slots, e.inUse = true → e.good = true →
    ¬(rep.payload = p ↔ e.bestPayload = p) → rep.tier1 e = false ∧ rep.tier2 e = false

/-! ## Insertions -/

section Insertions

variable {p : List Byte} {r : Ring} {rep : Replica}

theorem Apart.agree (h : Apart p r rep) (hgood : rep.good = true) {e : Entry} (he : e ∈ r.slots)
    (hegood : e.good = true)
    (htier : rep.tier1 e = true ∨ rep.tier2 e = true ∨ rep.tier3 e = true) :
    rep.payload = p ↔ e.bestPayload = p := by
  by_contra hne
  obtain ⟨h1, h2⟩ := h hgood e he (Replica.on_of_tier htier).1 hegood hne
  rcases htier with h | h | h
  · rw [h1] at h
    cases h
  · rw [h2] at h
    cases h
  · -- tier 3 is for failed replicas
    rw [Replica.tier3, rep.not_crcBad_of_good hgood] at h
    cases h

theorem Holds.insert (h : Holds p r) (hapart : Apart p r rep) : Holds p (r.insert rep) := by
  obtain ⟨e, he, huse, hgood, hp⟩ := h
  obtain ⟨j, hj⟩ := mem_iff_getElem?.mp he
  have hins := r.inserted rep
  generalize r.insert rep = r' at hins
  cases hins with
  | @folded _ i e₀ hfind hget htier hslots =>
    have hget' := get_folded_of hslots hj
    by_cases hij : i = j
    · subst hij
      have heq : e₀ = e := Option.some.inj (hget.symm.trans hj)
      subst heq
      rw [if_pos rfl] at hget'
      refine ⟨_, mem_of_getElem? hget', (rep.fold_keeps _).1.trans huse, ?_⟩
      cases hrep : rep.good with
      | true =>
        have hpay : rep.payload = p := (hapart.agree hrep he hgood htier).mpr hp
        refine ⟨rep.fold_good _ hrep, ?_⟩
        rw [rep.fold_bestPayload]
        split
        · exact hpay
        · exact hp
      | false =>
        obtain ⟨hmeta, hpay⟩ := rep.fold_of_good hrep hgood
        refine ⟨?_, hpay.trans hp⟩
        rw [Entry.good, hmeta]
        exact hgood
    · rw [if_neg hij] at hget'
      exact ⟨e, mem_of_getElem? hget', huse, hgood, hp⟩
  | @opened _ i e₀ hfind hget hfree hslots =>
    have hne : i ≠ j := by
      rintro rfl
      rw [hj] at hget
      cases hget
      rw [huse] at hfree
      cases hfree
    have hget' := get_opened_of hslots hj
    rw [if_neg hne, rep.suppress_of_good hgood] at hget'
    exact ⟨e, mem_of_getElem? hget', huse, hgood, hp⟩
  | dropped hfind hfull => exact ⟨e, he, huse, hgood, hp⟩

theorem holds_insert (hgood : rep.good = true) (hapart : Apart rep.payload r rep)
    (hfree : ∃ e ∈ r.slots, e.inUse = false) : Holds rep.payload (r.insert rep) := by
  have hins := r.inserted rep
  generalize r.insert rep = r' at hins
  cases hins with
  | @folded _ i e hfind hget htier hslots =>
    have hget' := get_folded_of hslots hget
    rw [if_pos rfl] at hget'
    refine ⟨_, mem_of_getElem? hget', ?_, rep.fold_good e hgood, ?_⟩
    · exact (rep.fold_keeps e).1.trans (Replica.on_of_tier htier).1
    · rw [rep.fold_bestPayload]
      split
      next => rfl
      next hwins =>
        -- only a good cluster can beat it, and that one has the same payload
        have hegood : e.good = true := by
          by_contra hbad
          rw [Bool.not_eq_true, Entry.good] at hbad
          simp [Replica.wins, hgood, hbad] at hwins
        exact (hapart.agree hgood (mem_of_getElem? hget) hegood htier).mp rfl
  | @opened _ i e hfind hget hdead hslots =>
    obtain ⟨m, hm, hok⟩ := rep.good_iff.mp hgood
    have hget' := get_opened_of hslots hget
    rw [if_pos rfl] at hget'
    refine ⟨_, mem_of_getElem? hget', rfl, ?_, rfl⟩
    rw [Entry.good, rep.openIn_bestMeta _ hm, hok]
  | dropped hfind hfull =>
    obtain ⟨e, he, hdead⟩ := hfree
    rw [hfull e he] at hdead
    cases hdead

end Insertions

/-! ## Runs -/

def Emitted (p : List Byte) (calls : List DecodeCall) : Prop :=
  ∃ call ∈ calls, call.frame = p ∧ call.ctx.payloadCrcOk = true

variable {p : List Byte} {r : Ring} {calls : List DecodeCall}

theorem Holds.sweep (h : Holds p r) (due : Entry → Bool) (batch : Nat) :
    Holds p (sweep due batch r).1 ∨ Emitted p ((sweep due batch r).2.map dedupEmitLocked) := by
  obtain ⟨e, he, huse, hgood, hp⟩ := h
  rcases Slots.mem_collect due release batch he with hstay | hout
  · exact .inl ⟨e, hstay, huse, hgood, hp⟩
  · exact .inr ⟨dedupEmitLocked e, mem_map_of_mem hout, hp, hgood⟩

theorem Holds.step (h : Holds p r) {input : DrainInput}
    (hapart : ∀ rep, input.replica = some rep → Apart p r rep) :
    Holds p (drainStep r input).1 ∨ Emitted p (drainStep r input).2 := by
  cases input with
  | frame f user nowUs realtimeNs =>
    refine .inl ?_
    show Holds p (onLoraFrame r f user nowUs realtimeNs)
    rw [onLoraFrame_eq]
    cases hrep : replicaOf f user nowUs realtimeNs with
    | none => exact h
    | some rep => exact h.insert (hapart rep hrep)
  | tick nowUs => exact h.sweep (expired nowUs) drainBatch
  | stop => exact h.sweep (·.inUse) ringSize

theorem Emitted.append_right (h : Emitted p calls) (earlier : List DecodeCall) :
    Emitted p (earlier ++ calls) := by
  obtain ⟨call, hmem, hcall⟩ := h
  exact ⟨call, mem_append_right _ hmem, hcall⟩

theorem Emitted.append_left (h : Emitted p calls) (later : List DecodeCall) :
    Emitted p (calls ++ later) := by
  obtain ⟨call, hmem, hcall⟩ := h
  exact ⟨call, mem_append_left _ hmem, hcall⟩

theorem Holds.run (h : Holds p r) {inputs : List DrainInput}
    (hapart : ∀ v ∈ Mealy.visits drainStep r inputs, ∀ rep, v.2.replica = some rep → Apart p v.1 rep) :
    Holds p (Mealy.run drainStep r inputs).1 ∨ Emitted p (Mealy.run drainStep r inputs).2 := by
  induction inputs generalizing r with
  | nil => exact .inl h
  | cons input inputs ih =>
    rw [Mealy.run]
    rcases h.step (hapart (r, input) mem_cons_self) with hheld | hout
    · rcases ih hheld fun v hv => hapart v (mem_cons_of_mem _ hv) with hend | hout
      · exact .inl hend
      · exact .inr (hout.append_right _)
    · exact .inr (hout.append_left _)

/-- **Good payloads come out.** In every run in which the ring is never full and no good replica
matches a good cluster where just one of the two has this payload, a payload that arrived good has
been emitted as good once the ring is drained. -/
theorem good_payload_emitted {r : Ring} {inputs : List DrainInput} {p : List Byte}
    (harrives : ∃ input ∈ inputs, ∃ rep, input.replica = some rep ∧ rep.good = true ∧
      rep.payload = p)
    (hroom : ∀ v ∈ Mealy.visits drainStep r inputs, ∀ rep, v.2.replica = some rep →
      ∃ e ∈ v.1.slots, e.inUse = false)
    (hapart : ∀ v ∈ Mealy.visits drainStep r inputs, ∀ rep, v.2.replica = some rep →
      Apart p v.1 rep)
    (hdrained : (Mealy.run drainStep r inputs).1.live = []) :
    ∃ call ∈ (Mealy.run drainStep r inputs).2, call.frame = p ∧ call.ctx.payloadCrcOk = true := by
  suffices hend : Holds p (Mealy.run drainStep r inputs).1 ∨
      Emitted p (Mealy.run drainStep r inputs).2 by
    rcases hend with ⟨e, he, huse, -⟩ | hout
    · have hmem : e ∈ (Mealy.run drainStep r inputs).1.live := List.mem_filter.mpr ⟨he, huse⟩
      rw [hdrained] at hmem
      cases hmem
    · exact hout
  clear hdrained
  induction inputs generalizing r with
  | nil =>
    obtain ⟨input, hin, -⟩ := harrives
    cases hin
  | cons input inputs ih =>
    have hlater : ∀ v ∈ Mealy.visits drainStep (drainStep r input).1 inputs, ∀ rep,
        v.2.replica = some rep → Apart p v.1 rep :=
      fun v hv => hapart v (mem_cons_of_mem _ hv)
    have hrest : Holds p (Mealy.run drainStep (drainStep r input).1 inputs).1 ∨
        Emitted p (Mealy.run drainStep (drainStep r input).1 inputs).2 := by
      obtain ⟨a, ha, rep, hrep, hgood, hp⟩ := harrives
      rcases List.mem_cons.mp ha with rfl | hmem
      · -- the payload arrives now
        refine Holds.run ?_ hlater
        cases a with
        | frame f user nowUs realtimeNs =>
          have hfree := hroom (r, _) mem_cons_self rep hrep
          have happ := hapart (r, _) mem_cons_self rep hrep
          subst hp
          show Holds rep.payload (onLoraFrame r f user nowUs realtimeNs)
          have hrep' : replicaOf f user nowUs realtimeNs = some rep := hrep
          rw [onLoraFrame_eq, hrep']
          exact holds_insert hgood happ hfree
        | tick nowUs => cases hrep
        | stop => cases hrep
      · exact ih ⟨a, hmem, rep, hrep, hgood, hp⟩
          (fun v hv => hroom v (mem_cons_of_mem _ hv)) hlater
    rw [Mealy.run]
    rcases hrest with hend | hout
    · exact .inl hend
    · exact .inr (hout.append_right _)

def goodFrameAt (raw : List Byte) (snrDb : ℚ) : Frame :=
  { goodFrame raw with frameMeta := { (goodFrame raw).frameMeta with snrDb := snrDb } }

theorem replica_goodFrameAt {raw : List Byte} (hlong : 14 ≤ raw.length)
    (hlen : raw.length ≤ maxPayload) (snrDb : ℚ) (user : Int) (nowUs realtimeNs : Nat) :
    (DrainInput.frame (goodFrameAt raw snrDb) user nowUs realtimeNs).replica =
      some ⟨raw, some (goodFrameAt raw snrDb).frameMeta, user, nowUs, realtimeNs⟩ := by
  have hdel : (goodFrameAt raw snrDb).delivered = some raw := delivered_goodFrame raw
  have hguard : ¬(raw.length < 14 ∨ maxPayload < raw.length) := by omega
  rw [DrainInput.replica, replicaOf, hdel, Option.bind_some, if_neg hguard]

def otherPacket : List Byte := List.replicate 8 0xFF ++ List.replicate 8 0

def nearPacket : List Byte := floodPacket.set 13 0x0B

instance (p : List Byte) (r : Ring) (rep : Replica) : Decidable (Apart p r rep) := by
  unfold Apart
  infer_instance

def twoPackets : List DrainInput :=
  [.frame (goodFrameAt floodPacket 5) 100 1000 0, .frame (goodFrameAt otherPacket 9) 200 1020 0,
    .tick 31000, .stop]

theorem good_payload_emitted_twoPackets :
    ∃ call ∈ (Mealy.run drainStep emptyRing twoPackets).2,
      call.frame = floodPacket ∧ call.ctx.payloadCrcOk = true := by
  refine good_payload_emitted ⟨_, mem_cons_self, _, rfl, rfl, rfl⟩ ?_ ?_ ?_
  · have hfree : ∀ v ∈ Mealy.visits drainStep emptyRing twoPackets, ∃ e ∈ v.1.slots,
        e.inUse = false := by
      decide +kernel
    exact fun v hv _ _ => hfree v hv
  · simp only [twoPackets, Mealy.visits, forall_mem_cons]
    refine ⟨?_, ?_, ?_, ?_, ?_⟩
    · intro rep hrep
      rw [replica_goodFrameAt (by decide) (by decide)] at hrep
      cases hrep
      decide +kernel
    · intro rep hrep
      rw [replica_goodFrameAt (by decide) (by decide)] at hrep
      cases hrep
      decide +kernel
    · rintro _ ⟨⟩
    · rintro _ ⟨⟩
    · simp
  · refine List.filter_eq_nil_iff.mpr ?_
    decide +kernel

def nearlyTwin : List DrainInput :=
  [.frame (goodFrameAt floodPacket 5) 100 1000 0, .frame (goodFrameAt nearPacket 9) 150 1010 0,
    .frame (goodFrameAt otherPacket 7) 200 1020 0, .tick 31000, .stop]

/-- The first packet shares its cluster with its near twin and is not emitted. -/
theorem nearlyTwin_loses_payload :
    ((dedupPayloadFingerprint floodPacket) ^^^ (dedupPayloadFingerprint otherPacket)).cpop.toNat > 14 ∧
      (∀ v ∈ Mealy.visits drainStep emptyRing nearlyTwin, ∃ e ∈ v.1.slots, e.inUse = false) ∧
      (Mealy.run drainStep emptyRing nearlyTwin).1.live = [] ∧
      ∀ call ∈ (Mealy.run drainStep emptyRing nearlyTwin).2, call.frame ≠ floodPacket := by
  refine ⟨?_, ?_, ?_, ?_⟩
  · decide +kernel
  · decide +kernel
  · refine List.filter_eq_nil_iff.mpr ?_
    decide +kernel
  · decide +kernel

end MeshcoreSniffer.Pipeline
