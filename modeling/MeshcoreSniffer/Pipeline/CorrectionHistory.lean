import MeshcoreSniffer.Lora.Delivery
import MeshcoreSniffer.Pipeline.Publish

/-!
# Whose correction is it?

The metadata of a frame lives in the decoder from one frame to the next, and the correction fields
are written only where a CRC is checked: an unchecked frame reports whatever the decoder still
holds.
-/

namespace MeshcoreSniffer.Pipeline

open Lib Lora Meshcore

/-! ## Deliveries -/

/-- With its payload symbols, or right after the header. -/
inductive Delivery where
  | full (d : Decoder)
  | headerOnly (d : Decoder)

def Delivery.decoder : Delivery → Decoder
  | .full d => d
  | .headerOnly d => d

def emptyFrame (d : Decoder) : Frame :=
  { payload := none
    payloadLen := 0
    frameMeta := { d.frameMeta with snrDb := d.meanSnrDb, payloadCrcOk := !d.payloadHasCrc } }

def Delivery.frame : Delivery → Frame
  | .full d => deliveredFrame d
  | .headerOnly d => emptyFrame d

def Delivery.checked : Delivery → Bool
  | .full d => d.payloadHasCrc && decide (4 ≤ d.frameBytes.length)
  | .headerOnly _ => false

def headerDelivery (d : Decoder) : Option Delivery :=
  let h := d.setHeader (parseHeader d.headerNibbles)
  if !h.frameMeta.headerCrcOk then none
  else
    let p := h.startPayload d.headerNibbles
    if p.payloadSymTarget = 0 then some (.headerOnly p) else none

def tickDelivery (d : Decoder) (o : Obs) : Option Delivery :=
  match d.state with
  | .idle | .preambleOk => none
  | .header =>
    if d.headerIdx < 2 then none
    else
      let d := d.pushHeaderSymbol o
      if d.headerIdx = 2 + 8 then headerDelivery d else none
  | .payload =>
    let d := d.pushPayloadSymbol o
    if d.payloadSymTarget ≤ d.payloadSymCount then some (.full d) else none

def delivery (d : Decoder) : Input → Option Delivery
  | .tick o => tickDelivery (d.accumulateSnr o) o
  | _ => none

variable (d : Decoder)

theorem frame_not_mem_tickPreambleOk (o : Obs) (f : Frame) :
    Event.frame f ∉ (tickPreambleOk d o).2 := by
  unfold tickPreambleOk matchUpchirp lockPreamble
  dsimp only
  split_ifs <;> simp

theorem frame_mem_decodeHeader_iff (f : Frame) :
    Event.frame f ∈ (decodeHeader d).2 ↔ ∃ dv, headerDelivery d = some dv ∧ f = dv.frame := by
  unfold decodeHeader headerDelivery
  dsimp only
  split
  next => simp
  next =>
    split
    next => simp [deliverEmpty, Delivery.frame, emptyFrame]
    next => simp

theorem frame_mem_tickState_iff (o : Obs) (f : Frame) :
    Event.frame f ∈ (tickState d o).2 ↔ ∃ dv, tickDelivery d o = some dv ∧ f = dv.frame := by
  unfold tickState tickDelivery
  cases d.state with
  | idle => simp
  | preambleOk => simp [frame_not_mem_tickPreambleOk d o f]
  | header =>
    simp only [tickHeader]
    split
    next => simp
    next =>
      split
      next => exact frame_mem_decodeHeader_iff _ f
      next => simp
  | payload =>
    simp only [tickPayload]
    split
    next => simp [deliver, Delivery.frame, deliveredFrame]
    next => simp

/-- **Every delivered frame.** A step delivers the frame of its delivery and no
other. -/
theorem frame_mem_step_iff (i : Input) (f : Frame) :
    Event.frame f ∈ (d.step i).2 ↔ ∃ dv, delivery d i = some dv ∧ f = dv.frame := by
  cases i with
  | tick o => exact frame_mem_tickState_iff (d.accumulateSnr o) o f
  | moveSampler | setCrcBruteforce | setCrcBruteforce2bit => simp [Decoder.step, delivery]

/-! ## The correction fields -/

def correction (m : FrameMeta) : Bool × Nat := (m.crcCorrected, m.crcCorrectedBits)

theorem frameMeta_accumulateSnr (o : Obs) : (d.accumulateSnr o).frameMeta = d.frameMeta := by
  unfold Decoder.accumulateSnr
  split <;> rfl

theorem frameMeta_pushHeaderSymbol (o : Obs) : (d.pushHeaderSymbol o).frameMeta = d.frameMeta := by
  unfold Decoder.pushHeaderSymbol
  split_ifs <;> rfl

theorem frameMeta_pushPayloadSymbol (o : Obs) :
    (d.pushPayloadSymbol o).frameMeta = d.frameMeta := by
  unfold Decoder.pushPayloadSymbol
  split_ifs <;> rfl

def headerDone (d : Decoder) : Decoder :=
  (d.setHeader (parseHeader d.headerNibbles)).startPayload d.headerNibbles

variable {d : Decoder} {i : Input} {dv : Delivery}

theorem delivery_cases (h : delivery d i = some dv) :
    ∃ o, dv = .full ((d.accumulateSnr o).pushPayloadSymbol o) ∨
      dv = .headerOnly (headerDone ((d.accumulateSnr o).pushHeaderSymbol o)) := by
  cases i with
  | moveSampler | setCrcBruteforce | setCrcBruteforce2bit => cases h
  | tick o =>
    refine ⟨o, ?_⟩
    simp only [delivery, tickDelivery] at h
    split at h
    next => cases h
    next => cases h
    next =>
      simp only [headerDelivery] at h
      split_ifs at h
      cases h
      exact Or.inr rfl
    next =>
      split_ifs at h
      cases h
      exact Or.inl rfl

theorem delivery_correction (h : delivery d i = some dv) :
    correction dv.decoder.frameMeta = correction d.frameMeta := by
  obtain ⟨o, rfl | rfl⟩ := delivery_cases h
  · rw [Delivery.decoder, frameMeta_pushPayloadSymbol, frameMeta_accumulateSnr]
  · rw [← frameMeta_accumulateSnr d o, ← frameMeta_pushHeaderSymbol (d.accumulateSnr o) o]
    rfl

theorem correction_of_checked (hcheck : (Delivery.full d).checked = true) :
    correction (deliveredFrame d).frameMeta =
        (if crcMatches d.frameBytes then (false, 0)
          else ((repair d.crcBruteforce d.crcBruteforce2bit d.frameBytes).1 != 0,
            (repair d.crcBruteforce d.crcBruteforce2bit d.frameBytes).1)) ∧
      (crcMatches d.frameBytes = false → (deliveredFrame d).payload =
        some (repair d.crcBruteforce d.crcBruteforce2bit d.frameBytes).2) := by
  simp only [Delivery.checked, Bool.and_eq_true, decide_eq_true_eq] at hcheck
  cases hcrc : crcMatches d.frameBytes with
  | true =>
    rw [deliveredFrame, checkCrc_match hcheck.1 hcheck.2 hcrc]
    exact ⟨rfl, fun h => by cases h⟩
  | false =>
    rw [deliveredFrame, checkCrc_fail hcheck.1 hcheck.2 hcrc]
    exact ⟨rfl, fun _ => rfl⟩

theorem correction_of_unchecked (hcheck : dv.checked = false) :
    correction dv.frame.frameMeta = correction dv.decoder.frameMeta := by
  cases dv with
  | headerOnly d => rfl
  | full d =>
    have hnone : d.payloadHasCrc = false ∨ d.frameBytes.length < 4 := by
      simp only [Delivery.checked, Bool.and_eq_false_iff, decide_eq_false_iff_not, not_le] at hcheck
      exact hcheck
    rw [Delivery.frame, deliveredFrame, checkCrc_unchecked hnone]
    rfl

/-! ## The CRC flag of header and metadata -/

theorem checkCrc_hasCrc (d : Decoder) (bytes : List Byte) :
    (checkCrc d bytes).1.hasCrc = d.frameMeta.hasCrc := by
  unfold checkCrc
  dsimp only
  split_ifs <;> rfl

def SameCrcFlag (d : Decoder) : Prop := d.frameMeta.hasCrc = d.payloadHasCrc

theorem SameCrcFlag.accumulateSnr (h : SameCrcFlag d) (o : Obs) :
    SameCrcFlag (d.accumulateSnr o) := by
  unfold Decoder.accumulateSnr
  split <;> exact h

theorem SameCrcFlag.pushPayloadSymbol (h : SameCrcFlag d) (o : Obs) :
    SameCrcFlag (d.pushPayloadSymbol o) := by
  unfold Decoder.pushPayloadSymbol
  split_ifs <;> exact h

theorem SameCrcFlag.tickState (h : SameCrcFlag d) (o : Obs) : SameCrcFlag (tickState d o).1 := by
  have hhdr : ∀ d : Decoder, SameCrcFlag (decodeHeader d).1 := by
    intro d
    unfold decodeHeader deliverEmpty
    dsimp only
    split_ifs <;> exact rfl
  unfold Lora.tickState
  split
  next =>
    unfold tickIdle
    split <;> exact h
  next =>
    unfold tickPreambleOk matchUpchirp
    dsimp only
    split_ifs <;> exact h
  next =>
    unfold tickHeader
    split
    next => exact h
    next =>
      dsimp only
      split
      next => exact hhdr _
      next =>
        unfold Decoder.pushHeaderSymbol
        split_ifs <;> exact h
  next =>
    unfold tickPayload
    dsimp only
    split
    next => exact (checkCrc_hasCrc _ _).trans (h.pushPayloadSymbol o)
    next => exact h.pushPayloadSymbol o

theorem SameCrcFlag.step (d : Decoder) (i : Input) (h : SameCrcFlag d) : SameCrcFlag (d.step i).1 :=
  step_invariant (fun _ _ h => h) (fun _ _ _ h => h) (fun _ _ _ h => h)
    (fun _ o h => h.tickState o) d i h

theorem SameCrcFlag.fresh (h : d.Fresh) : SameCrcFlag d := by
  obtain ⟨sf, cr, bwHz, osFactor, soft, hcreate⟩ := h
  unfold loraDecoderCreateOs at hcreate
  split_ifs at hcreate
  cases hcreate
  rfl

theorem hasCrc_frame (hflag : SameCrcFlag d) (h : delivery d i = some dv) :
    dv.frame.frameMeta.hasCrc = dv.decoder.payloadHasCrc := by
  obtain ⟨o, rfl | rfl⟩ := delivery_cases h
  · exact (checkCrc_hasCrc _ _).trans ((hflag.accumulateSnr o).pushPayloadSymbol o)
  · rfl

/-! ## Every frame of a life -/

/-- The frame carried a CRC, failed it, and the bit search repaired it with that number of flips. -/
def OwnCorrection (d : Decoder) (i : Input) (f : Frame) : Prop :=
  f.frameMeta.crcCorrected = true ∨ f.frameMeta.crcCorrectedBits ≠ 0 →
    ∃ d', delivery d i = some (.full d') ∧ f.frameMeta.hasCrc = true ∧
      d'.payloadHasCrc = true ∧ crcMatches d'.frameBytes = false ∧
      f.frameMeta.crcCorrectedBits ≠ 0 ∧
      ∃ bytes, f.payload = some bytes ∧
        repair d'.crcBruteforce d'.crcBruteforce2bit d'.frameBytes =
          (f.frameMeta.crcCorrectedBits, bytes)

def SparedByGate (f : Frame) : Prop :=
  ∀ (ev : MeshEvent) (raw : List Byte) (user : Int) (tNs : Nat),
    onMeshEvent ev (some (decodeCall raw f.frameMeta user tNs).ctx) =
      stamp ev (some (decodeCall raw f.frameMeta user tNs).ctx)

def uncheckedClean (d : Decoder) (i : Input) : Bool :=
  match delivery d i with
  | none => true
  | some dv => dv.checked || (!d.frameMeta.crcCorrected && d.frameMeta.crcCorrectedBits == 0)

theorem repair_short {one two : Bool} {bytes : List Byte} (hlen : bytes.length < 4) :
    repair one two bytes = (0, bytes) := by
  simp [repair, loraCrcBruteforceCorrect_short hlen, loraCrcBruteforceCorrect2bit, hlen]

theorem spared_of_zero_bits {f : Frame} (hbits : f.frameMeta.crcCorrectedBits = 0) :
    SparedByGate f := by
  intro ev raw user tNs
  have hstamped : (stamp ev (some (decodeCall raw f.frameMeta user tNs).ctx)).crcCorrectedBits = 0 := by
    unfold stamp
    dsimp only [decodeCall]
    split <;> exact hbits
  rw [onMeshEvent, gate, crcRecoveryNeedsGate, hstamped]
  simp

theorem own_step_iff (hflag : SameCrcFlag d) (i : Input) : (∀ f, Event.frame f ∈ (d.step i).2 →
        OwnCorrection d i f ∧ (f.frameMeta.hasCrc = false → SparedByGate f)) ↔
      uncheckedClean d i = true := by
  simp only [frame_mem_step_iff]
  unfold uncheckedClean
  cases hdv : delivery d i with
  | none => simp
  | some dv =>
    have hkept := delivery_correction hdv
    have hcrc := hasCrc_frame hflag hdv
    simp only [Option.some.injEq, exists_eq_left', forall_eq]
    cases hcheck : dv.checked with
    | true =>
      simp only [Bool.true_or, iff_true]
      cases dv with
      | headerOnly d' => cases hcheck
      | full d' =>
        obtain ⟨hcor, hbytes⟩ := correction_of_checked hcheck
        have hhas : d'.payloadHasCrc = true := by
          simp only [Delivery.checked, Bool.and_eq_true] at hcheck
          exact hcheck.1
        have hmeta : (deliveredFrame d').frameMeta.hasCrc = true := hcrc.trans hhas
        refine ⟨fun hset => ?_, fun hnone => ?_⟩
        · cases hmatch : crcMatches d'.frameBytes with
          | true =>
            -- a frame that passes reports nothing
            rw [hmatch, if_pos rfl, correction, Prod.mk.injEq] at hcor
            rcases hset with hset | hset
            · exact absurd hset (by rw [Delivery.frame, hcor.1]; decide)
            · exact absurd hcor.2 hset
          | false =>
            rw [hmatch, if_neg Bool.false_ne_true, correction, Prod.mk.injEq] at hcor
            have hne : (deliveredFrame d').frameMeta.crcCorrectedBits ≠ 0 := by
              rcases hset with hset | hset
              · have hset : (deliveredFrame d').frameMeta.crcCorrected = true := hset
                rw [hcor.1] at hset
                rw [hcor.2]
                simpa using hset
              · exact hset
            exact ⟨d', hdv, hmeta, hhas, hmatch, hne, _, hbytes hmatch, Prod.ext hcor.2.symm rfl⟩
        · rw [Delivery.frame, hmeta] at hnone
          cases hnone
    | false =>
      have hcor := (correction_of_unchecked hcheck).trans hkept
      rw [correction, correction, Prod.mk.injEq] at hcor
      simp only [Bool.false_or, Bool.and_eq_true, Bool.not_eq_true', beq_iff_eq]
      rw [← hcor.1, ← hcor.2]
      constructor
      · rintro ⟨hown, -⟩
        by_contra hdirty
        have hset : dv.frame.frameMeta.crcCorrected = true ∨
            dv.frame.frameMeta.crcCorrectedBits ≠ 0 := by
          by_contra hclean
          rw [not_or, Bool.not_eq_true, not_not] at hclean
          exact hdirty hclean
        obtain ⟨d', hfull, -, hhas, -, hne, bytes, -, hrep⟩ := hown hset
        rw [hdv, Option.some.injEq] at hfull
        rw [hfull, Delivery.checked, hhas, Bool.true_and, decide_eq_false_iff_not, not_le] at hcheck
        rw [repair_short hcheck, Prod.mk.injEq] at hrep
        exact hne hrep.1.symm
      · rintro ⟨hfalse, hzero⟩
        refine ⟨fun hset => ?_, fun _ => spared_of_zero_bits hzero⟩
        rcases hset with hset | hset
        · rw [hfalse] at hset
          cases hset
        · exact absurd hzero hset

/-- **Corrections are the frame's own.** Over every life of a decoder: all correction fields belong
to the frame they come with, and no frame without a CRC is touched by the publication gate, if and
only if every frame that is not checked is delivered while the correction fields are clean. -/
theorem corrections_are_own_iff_unchecked_clean {d : Decoder} (hd : d.Fresh) (inputs : List Input) :
    (∀ v ∈ Mealy.visits Decoder.step d inputs, ∀ f, Event.frame f ∈ (v.1.step v.2).2 →
        OwnCorrection v.1 v.2 f ∧ (f.frameMeta.hasCrc = false → SparedByGate f)) ↔
      ∀ v ∈ Mealy.visits Decoder.step d inputs, uncheckedClean v.1 v.2 = true := by
  have hflag := Mealy.visits_invariant Decoder.step SameCrcFlag.step (SameCrcFlag.fresh hd) inputs
  exact forall₂_congr fun v hv => own_step_iff (hflag v hv) v.2

/-! ## Two lives of one decoder -/

def createdDecoder : Decoder :=
  { sf := 7, cr := 5, bwHz := 125000, osFactor := 1, softDecoding := false
    frameMeta := { sf := 7, cr := 5, bwHz := 125000 } }

theorem createdDecoder_fresh : createdDecoder.Fresh := ⟨7, 5, 125000, 1, false, rfl⟩

def pairFrame : TxFrame :=
  { byteFrame with payload := [0x41#8, 0x42#8], len_lo := by decide, len_hi := by decide }

def plainFrame : TxFrame := { byteFrame with hasCrc := false }

/-- `pairFrame` with its first payload symbol one bin off: one payload bit is wrong. -/
def garbledPair : List Input :=
  (lockTicks ++ (pairFrame.headerBins ++ pairFrame.payloadBins.modify 0 (· + 1)).map clearObs).map .tick

def plainReception : List Input := (lockTicks ++ plainFrame.clearObs).map .tick

theorem corrections_are_own_plain_first :
    createdDecoder.Fresh ∧
      ∀ v ∈ Mealy.visits Decoder.step createdDecoder (plainReception ++ garbledPair),
        ∀ f, Event.frame f ∈ (v.1.step v.2).2 →
          OwnCorrection v.1 v.2 f ∧ (f.frameMeta.hasCrc = false → SparedByGate f) := by
  have hclean : (Mealy.visits Decoder.step createdDecoder (plainReception ++ garbledPair)).all
      (fun v => uncheckedClean v.1 v.2) = true := by decide +kernel
  exact ⟨createdDecoder_fresh,
    (corrections_are_own_iff_unchecked_clean createdDecoder_fresh _).mpr
      (List.all_eq_true.mp hclean)⟩

/-- The plain frame, received without error, comes with its predecessor's correction, and a group
message in it is published as failed unless a configured channel decrypts it. -/
theorem stale_correction_delivered :
    createdDecoder.Fresh ∧
      ∃ v ∈ Mealy.visits Decoder.step createdDecoder (garbledPair ++ plainReception),
        ∃ f, Event.frame f ∈ (v.1.step v.2).2 ∧ f.delivered = some plainFrame.payload ∧
          f.frameMeta.hasCrc = false ∧ f.frameMeta.payloadCrcOk = true ∧
          f.frameMeta.crcCorrected = true ∧ f.frameMeta.crcCorrectedBits = 1 ∧
          ∀ (ev : MeshEvent) (raw : List Byte) (user : Int) (tNs : Nat), ev.isMeshcore = true →
            ev.mcPayloadType = .grpTxt → ev.decrypted = false →
            (onMeshEvent ev (some (decodeCall raw f.frameMeta user tNs).ctx)).payloadCrcOk = false := by
  have hrun : (Mealy.run Decoder.step createdDecoder (garbledPair ++ plainReception)).2.any
      (fun e => match e with
        | .frame f => decide (f.delivered = some plainFrame.payload) && !f.frameMeta.hasCrc &&
            f.frameMeta.payloadCrcOk && f.frameMeta.crcCorrected && f.frameMeta.crcCorrectedBits == 1
        | .preambleLock _ _ _ _ => false) = true := by decide +kernel
  obtain ⟨e, hmem, he⟩ := List.any_eq_true.mp hrun
  cases e with
  | preambleLock => cases he
  | frame f =>
    simp only [Bool.and_eq_true, decide_eq_true_eq, Bool.not_eq_true', beq_iff_eq] at he
    obtain ⟨⟨⟨⟨hdel, hcrc⟩, hok⟩, hcor⟩, hbits⟩ := he
    obtain ⟨v, hv, hframe⟩ := (Mealy.mem_run_iff Decoder.step _ _ _).mp hmem
    refine ⟨createdDecoder_fresh, v, hv, f, hframe, hdel, hcrc, hok, hcor, hbits, ?_⟩
    intro ev raw user tNs hproto htype hdec
    simp [onMeshEvent, gate, stamp, decodeCall, crcRecoveryNeedsGate, meshEventCrc2bitTrusted,
      authable, hcrc, hbits, hproto, htype, hdec]

end MeshcoreSniffer.Pipeline
