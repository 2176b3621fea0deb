import MeshcoreSniffer.Lib.Mealy
import MeshcoreSniffer.Lib.Nibbles
import MeshcoreSniffer.Lora.Bruteforce
import MeshcoreSniffer.Lora.Symbols

/-!
# The LoRa decoder

`stateTick` is the state machine of `lora.c`, `feedSample` the sample loop, which refines it. A list
of `Input`s is a whole life of a decoder, and `Decoder.Inv` what every life preserves. A tick is
given what the FFT stage measured (`Obs`), exactly.
-/

namespace MeshcoreSniffer.Lora

open Lib

def preambleMin : Nat := 5

def maxPayloadBytes : Nat := 256

def maxPayloadSymbols : Nat := 1024

inductive LoraState where
  | idle
  | preambleOk
  | header
  | payload
  deriving DecidableEq, Repr

/-- Without the estimates that the decoder only passes through. -/
structure FrameMeta where
  sf : Nat
  cr : Nat
  bwHz : Nat
  payloadLen : Nat := 0
  hasCrc : Bool := false
  headerCrcOk : Bool := false
  payloadCrcOk : Bool := false
  crcCorrected : Bool := false
  crcCorrectedBits : Nat := 0
  snrDb : ℚ := 0
  preambleLockSampleIdx : BitVec 64 := 0
  deriving DecidableEq

/-- How full the symbol window is, how many samples to skip, which way to shift the next window, and
the caller's stream cursor. -/
structure Sampler where
  symbufCount : Nat := 0
  stoSkipRemaining : Int := 0
  sfoNextSymShift : Int := 0
  streamChunkAnchor : BitVec 64 := 0
  streamStepPerSample : BitVec 32 := 0
  samplesInChunk : BitVec 32 := 0
  deriving DecidableEq

/-- The part of `struct lora_decoder` that decides. -/
structure Decoder where
  sf : Nat
  cr : Nat
  bwHz : Nat
  osFactor : Nat
  softDecoding : Bool
  crcBruteforce : Bool := true
  crcBruteforce2bit : Bool := false
  state : LoraState := .idle
  preambleCount : Nat := 0
  preamblePeakSum : ℚ := 0
  preamblePeakCount : Nat := 0
  preambleLockedOnce : Bool := false
  preambleBin : Int := 0
  preambleBinHist : List Int := []
  headerIdx : Nat := 0
  headerSyms : List (BitVec 16) := []
  headerLlrs : List (List ℚ) := []
  payloadLen : Nat := 0
  payloadCr : Nat := 0
  payloadHasCrc : Bool := false
  payloadLdro : Bool := false
  hdrLeftover : List Byte := []
  payloadSyms : List (BitVec 16) := []
  payloadLlrs : List (List ℚ) := []
  payloadSymCount : Nat := 0
  payloadSymTarget : Nat := 0
  snrDbSum : ℚ := 0
  snrDbCount : Nat := 0
  frameMeta : FrameMeta
  sampler : Sampler := {}

structure Obs where
  /-- Bin of the strongest line. -/
  sym : Nat
  /-- Magnitude of that line. -/
  peak : ℚ
  /-- Mean magnitude of the others. -/
  noise : ℚ
  /-- `20 log10 (peak / noise)`. -/
  snrDb : ℚ
  /-- Rounded tail trim, from the carrier offset of the second downchirp. -/
  trimInput : Int
  /-- Boundary shift asked for by the drift accumulator. -/
  sfoShift : Int
  /-- Row of likelihoods, top bit first. -/
  llrs : List ℚ

/-- The buffer (`none` for a null pointer), the length the callback is told, and the metadata. -/
structure Frame where
  payload : Option (List Byte)
  payloadLen : Nat
  frameMeta : FrameMeta
  deriving DecidableEq

/-- The bytes the callback can read. -/
def Frame.delivered (f : Frame) : Option (List Byte) :=
  f.payload.bind fun bytes =>
    if f.payloadLen ≤ bytes.length then some (bytes.take f.payloadLen) else none

inductive Event where
  | preambleLock (sf cr bwHz : Nat) (snrDb : ℚ)
  | frame (f : Frame)
  deriving DecidableEq

def Decoder.bins (d : Decoder) : Nat := 2 ^ d.sf

/-- The last argument is the environment switch for soft decoding. -/
def loraDecoderCreateOs (sf cr bwHz osFactor : Nat) (soft : Bool) : Option Decoder :=
  if sf < 7 ∨ sf > 12 ∨ cr < 5 ∨ cr > 8 ∨ bwHz = 0 then none
  else if osFactor < 1 ∨ osFactor > 16 then none
  else some
    { sf := sf, cr := cr, bwHz := bwHz, osFactor := osFactor, softDecoding := soft
      frameMeta := { sf := sf, cr := cr, bwHz := bwHz } }

/-- The metadata, the lock bin and the header fields of the last frame stay. -/
def Decoder.resetToIdle (d : Decoder) : Decoder :=
  { d with
    state := .idle
    preambleCount := 0
    preambleLockedOnce := false
    preambleBinHist := []
    preamblePeakSum := 0
    preamblePeakCount := 0
    headerIdx := 0
    headerSyms := []
    headerLlrs := []
    hdrLeftover := []
    payloadSyms := []
    payloadLlrs := []
    payloadSymCount := 0
    payloadSymTarget := 0
    payloadLdro := false
    snrDbSum := 0
    snrDbCount := 0
    sampler := { d.sampler with stoSkipRemaining := 0, sfoNextSymShift := 0 } }

def Decoder.meanSnrDb (d : Decoder) : ℚ :=
  if d.snrDbCount > 0 then d.snrDbSum / d.snrDbCount else 0

/-! ## Preamble -/

def Obs.aboveFloor (o : Obs) : Bool :=
  decide (0 < o.peak) && decide (2 * (if 0 < o.noise then o.noise else 1) < o.peak)

def tickIdle (d : Decoder) (o : Obs) : Decoder :=
  if !o.aboveFloor then d
  else
    { d with
      preambleBin := o.sym
      preambleCount := 1
      preambleBinHist := [(o.sym : Int)]
      preamblePeakSum := o.peak
      preamblePeakCount := 1
      state := .preambleOk
      preambleLockedOnce := false }

def modeBin (hist : List Int) : Int :=
  (hist.foldl
    (fun (best : Int × Nat) (b : Int) =>
      let c := hist.count b
      if c > best.2 then (b, c) else best)
    (hist.headD 0, 1)).1

def enterHeader (d : Decoder) : Decoder :=
  let n : Int := d.bins
  let kHat := if 2 ≤ d.preambleBinHist.length then modeBin d.preambleBinHist else d.preambleBin
  let kHat := if kHat < 0 then 0 else kHat
  let kHat := if n ≤ kHat then 0 else kHat
  let kSigned := if n / 2 ≤ kHat then kHat - n else kHat
  { d with
    headerIdx := 0
    headerSyms := []
    headerLlrs := []
    state := .header
    sampler := { d.sampler with stoSkipRemaining := (n - kSigned) * d.osFactor }
    preambleBin := 0
    preambleBinHist := [] }

def Decoder.lockSampleIdx (d : Decoder) : BitVec 64 :=
  d.sampler.streamChunkAnchor +
    d.sampler.samplesInChunk.setWidth 64 * d.sampler.streamStepPerSample.setWidth 64

def Decoder.countUpchirp (d : Decoder) (o : Obs) : Decoder :=
  { d with
    preambleCount := if d.preambleCount < preambleMin + 4 then d.preambleCount + 1
      else d.preambleCount
    preamblePeakSum := d.preamblePeakSum + o.peak
    preamblePeakCount := d.preamblePeakCount + 1
    preambleBinHist := if d.preambleBinHist.length < 16 then d.preambleBinHist ++ [(o.sym : Int)]
      else d.preambleBinHist }

def lockPreamble (d : Decoder) (o : Obs) : Decoder × List Event :=
  ({ d with
      preambleLockedOnce := true
      frameMeta := { d.frameMeta with preambleLockSampleIdx := d.lockSampleIdx } },
    [.preambleLock d.sf d.cr d.bwHz (if 0 < o.peak ∧ 0 < o.noise then o.snrDb else 0)])

def matchUpchirp (d : Decoder) (o : Obs) : Decoder × List Event :=
  let d := d.countUpchirp o
  if d.preambleCount ≥ preambleMin && !d.preambleLockedOnce then lockPreamble d o else (d, [])

def Decoder.binMatches (d : Decoder) (o : Obs) : Bool :=
  let n : Int := d.bins
  let diff := |(o.sym : Int) - d.preambleBin|
  let diff := if n / 2 < diff then n - diff else diff
  decide (diff ≤ 2)

/-- The peak has dropped below seven tenths of the preamble's mean. -/
def Decoder.straddleTrigger (d : Decoder) (o : Obs) : Bool :=
  let mean := if d.preamblePeakCount > 0 then d.preamblePeakSum / d.preamblePeakCount else 0
  decide (d.preambleCount ≥ preambleMin) && decide (0 < mean) && decide (o.peak < 7 / 10 * mean)

def tickPreambleOk (d : Decoder) (o : Obs) : Decoder × List Event :=
  if !o.aboveFloor then (d.resetToIdle, [])
  else if d.binMatches o && !d.straddleTrigger o then matchUpchirp d o
  else if d.preambleCount ≥ preambleMin then (enterHeader d, [])
  else (d.resetToIdle, [])

/-! ## Header -/

structure HeaderFields where
  payloadLen : Nat
  hasCrc : Bool
  payloadCr : Nat
  checksumOk : Bool
  deriving DecidableEq, Repr

def headerChecksum (n0 n1 n2 : Byte) : BitVec 5 :=
  let c4 := n0.getLsbD 3 ^^ n0.getLsbD 2 ^^ n0.getLsbD 1 ^^ n0.getLsbD 0
  let c3 := n0.getLsbD 3 ^^ n1.getLsbD 3 ^^ n1.getLsbD 2 ^^ n1.getLsbD 1 ^^ n2.getLsbD 0
  let c2 := n0.getLsbD 2 ^^ n1.getLsbD 3 ^^ n1.getLsbD 0 ^^ n2.getLsbD 3 ^^ n2.getLsbD 1
  let c1 := n0.getLsbD 1 ^^ n1.getLsbD 2 ^^ n1.getLsbD 0 ^^ n2.getLsbD 2 ^^ n2.getLsbD 1 ^^
    n2.getLsbD 0
  let c0 := n0.getLsbD 0 ^^ n1.getLsbD 1 ^^ n2.getLsbD 3 ^^ n2.getLsbD 2 ^^ n2.getLsbD 1 ^^
    n2.getLsbD 0
  packMsb 5 [c4, c3, c2, c1, c0]

def parseHeader (n : List Byte) : HeaderFields :=
  let n0 := n.getD 0 0#8
  let n1 := n.getD 1 0#8
  let n2 := n.getD 2 0#8
  let n3 := n.getD 3 0#8
  let n4 := n.getD 4 0#8
  let hdrCrApp := ((n2 >>> 1) &&& 0x07#8).toNat
  let headerChk : BitVec 5 :=
    ((n3 &&& 1#8).setWidth 5 <<< 4) ||| (n4 &&& 0x0f#8).setWidth 5
  { payloadLen := (n0.toNat <<< 4) ||| n1.toNat
    hasCrc := n2.getLsbD 0
    payloadCr := if 1 ≤ hdrCrApp ∧ hdrCrApp ≤ 4 then hdrCrApp + 4 else 5
    checksumOk := headerChecksum n0 n1 n2 == headerChk }

def Decoder.sfAppHeader (d : Decoder) : Nat := if d.sf - 2 < 5 then 5 else d.sf - 2

def Decoder.headerNibbles (d : Decoder) : List Byte :=
  if d.softDecoding then
    (loraDeinterleaveSoft d.headerLlrs d.sfAppHeader 8).map fun cw => loraHammingDecodeSoft cw 8
  else decodeBlock d.headerSyms d.sfAppHeader 8

def ldroOf (sf bwHz : Nat) : Bool := decide (16 * bwHz < 2 ^ sf * 1000)

def payloadSymbolCount (sf : Nat) (ldro hasCrc : Bool) (payloadLen payloadCr : Nat) : Nat :=
  let numer : Int := 2 * payloadLen - sf + 2 + 5 + (if hasCrc then 4 else 0)
  let denom : Nat := sf - (if ldro then 2 else 0)
  (numer.toNat + denom - 1) / denom * payloadCr

/-- Store the header fields, also in the metadata. -/
def Decoder.setHeader (d : Decoder) (h : HeaderFields) : Decoder :=
  { d with
    payloadLen := h.payloadLen
    payloadHasCrc := h.hasCrc
    payloadCr := h.payloadCr
    frameMeta := { d.frameMeta with
      payloadLen := h.payloadLen
      hasCrc := h.hasCrc
      headerCrcOk := h.checksumOk && decide (0 < h.payloadLen) } }

def Decoder.startPayload (d : Decoder) (n : List Byte) : Decoder :=
  let ldro := ldroOf d.sf d.bwHz
  { d with
    hdrLeftover := (n.take d.sfAppHeader).drop 5
    payloadLdro := ldro
    payloadSymTarget :=
      min maxPayloadSymbols
        (payloadSymbolCount d.sf ldro d.payloadHasCrc d.payloadLen d.payloadCr)
    payloadSyms := []
    payloadLlrs := []
    payloadSymCount := 0
    state := .payload }

/-- A frame whose header leaves no payload symbols has a null payload. -/
def deliverEmpty (d : Decoder) : Decoder × List Event :=
  let m := { d.frameMeta with snrDb := d.meanSnrDb, payloadCrcOk := !d.payloadHasCrc }
  (({ d with frameMeta := m } : Decoder).resetToIdle,
    [.frame { payload := none, payloadLen := 0, frameMeta := m }])

/-- Give up, deliver at once, or go on to the payload. -/
def decodeHeader (d : Decoder) : Decoder × List Event :=
  let n := d.headerNibbles
  let d := d.setHeader (parseHeader n)
  if !d.frameMeta.headerCrcOk then (d.resetToIdle, [])
  else
    let d := d.startPayload n
    if d.payloadSymTarget = 0 then deliverEmpty d else (d, [])

def Decoder.pushHeaderSymbol (d : Decoder) (o : Obs) : Decoder :=
  if d.headerIdx - 2 < 8 then
    if d.softDecoding then
      { d with headerLlrs := d.headerLlrs ++ [o.llrs], headerIdx := d.headerIdx + 1 }
    else
      { d with
        headerSyms := d.headerSyms ++ [demodValue d.sf d.preambleBin true o.sym]
        headerIdx := d.headerIdx + 1 }
  else d

def Decoder.readDownchirp (d : Decoder) (o : Obs) : Decoder :=
  let trim := if d.headerIdx + 1 = 2 then (if o.trimInput < 0 then 0 else o.trimInput) else 0
  { d with
    headerIdx := d.headerIdx + 1
    sampler := { d.sampler with stoSkipRemaining := d.sampler.stoSkipRemaining + trim } }

/-- `STATE_HEADER`: two downchirps, then eight symbols. -/
def tickHeader (d : Decoder) (o : Obs) : Decoder × List Event :=
  if d.headerIdx < 2 then (d.readDownchirp o, [])
  else
    let d := d.pushHeaderSymbol o
    if d.headerIdx = 2 + 8 then decodeHeader d else (d, [])

/-! ## Payload -/

/-- `pending` is a low half that waits for its high half. -/
structure Packer where
  bytes : List Byte := []
  pendingLo : Option Byte := none
  deriving DecidableEq, Repr

def Packer.push (p : Packer) (nib : Byte) : Packer :=
  if p.bytes.length < maxPayloadBytes then
    match p.pendingLo with
    | none => { p with pendingLo := some nib }
    | some lo => { bytes := p.bytes ++ [(nib <<< 4) ||| (lo &&& 0x0f#8)], pendingLo := none }
  else p

def Decoder.sfAppPayload (d : Decoder) : Nat := if d.payloadLdro then d.sf - 2 else d.sf

/-- The nibbles of the payload block that starts at symbol `blk`. -/
def Decoder.payloadBlock (d : Decoder) (blk : Nat) : List Byte :=
  if d.softDecoding then
    (loraDeinterleaveSoft (d.payloadLlrs.drop blk) d.sfAppPayload d.payloadCr).map fun cw =>
      loraHammingDecodeSoft cw d.payloadCr
  else decodeBlock (d.payloadSyms.drop blk) d.sfAppPayload d.payloadCr

def Decoder.payloadBytes (d : Decoder) : List Byte :=
  let p := d.hdrLeftover.foldl (fun (p : Packer) (nib : Byte) => p.push (nib &&& 0x0f#8)) {}
  ((List.range (d.payloadSymCount / d.payloadCr)).foldl
    (fun (p : Packer) (b : Nat) => (d.payloadBlock (b * d.payloadCr)).foldl Packer.push p) p).bytes

def Decoder.frameBytes (d : Decoder) : List Byte :=
  let total := d.payloadLen + (if d.payloadHasCrc then 2 else 0)
  let bytes := d.payloadBytes.take total
  let payOnly := if d.payloadLen > bytes.length then bytes.length else d.payloadLen
  loraDewhiten bytes payOnly

/-- The trailer check with its two repairs. A frame without a trailer, or too short for the check,
keeps the correction fields that are there. -/
def checkCrc (d : Decoder) (bytes : List Byte) : FrameMeta × List Byte :=
  if d.payloadHasCrc && decide (4 ≤ bytes.length) then
    let ok := crcMatches bytes
    let m := { d.frameMeta with payloadCrcOk := ok, crcCorrected := false, crcCorrectedBits := 0 }
    let one := loraCrcBruteforceCorrect bytes
    let two := loraCrcBruteforceCorrect2bit one.2
    if !ok && d.crcBruteforce && one.1 then
      ({ m with payloadCrcOk := true, crcCorrected := true, crcCorrectedBits := 1 }, one.2)
    else if !ok && d.crcBruteforce && d.crcBruteforce2bit && two.1 then
      ({ m with payloadCrcOk := true, crcCorrected := true, crcCorrectedBits := 2 }, two.2)
    else (m, bytes)
  else ({ d.frameMeta with payloadCrcOk := !d.payloadHasCrc }, bytes)

def deliver (d : Decoder) : Decoder × List Event :=
  let checked := checkCrc d d.frameBytes
  let m := { checked.1 with snrDb := d.meanSnrDb }
  (({ d with frameMeta := m } : Decoder).resetToIdle,
    [.frame { payload := some checked.2, payloadLen := d.payloadLen, frameMeta := m }])

def Decoder.pushPayloadSymbol (d : Decoder) (o : Obs) : Decoder :=
  if d.payloadSymCount < maxPayloadSymbols then
    if d.softDecoding then
      { d with payloadLlrs := d.payloadLlrs ++ [o.llrs], payloadSymCount := d.payloadSymCount + 1 }
    else
      { d with
        payloadSyms := d.payloadSyms ++ [demodValue d.sf d.preambleBin d.payloadLdro o.sym]
        payloadSymCount := d.payloadSymCount + 1 }
  else d

def tickPayload (d : Decoder) (o : Obs) : Decoder × List Event :=
  let d := d.pushPayloadSymbol o
  if d.payloadSymTarget ≤ d.payloadSymCount then deliver d else (d, [])

/-! ## The whole machine -/

def Decoder.accumulateSnr (d : Decoder) (o : Obs) : Decoder :=
  if (d.state = .header ∨ d.state = .payload) ∧ 0 < o.peak ∧ 0 < o.noise then
    { d with snrDbSum := d.snrDbSum + o.snrDb, snrDbCount := d.snrDbCount + 1 }
  else d

def Decoder.applyDrift (d : Decoder) (o : Obs) : Decoder :=
  if (d.state = .header ∧ 2 ≤ d.headerIdx) ∨ d.state = .payload then
    { d with sampler := { d.sampler with sfoNextSymShift := o.sfoShift } }
  else d

def tickState (d : Decoder) (o : Obs) : Decoder × List Event :=
  match d.state with
  | .idle => (tickIdle d o, [])
  | .preambleOk => tickPreambleOk d o
  | .header => tickHeader d o
  | .payload => tickPayload d o

def stateTick (d : Decoder) (o : Obs) : Decoder × List Event :=
  let next := tickState (d.accumulateSnr o) o
  (next.1.applyDrift o, next.2)

/-- The next window starts one sample early, one late, or where this one ended. -/
def Sampler.shiftBoundary (s : Sampler) : Sampler :=
  if 0 < s.sfoNextSymShift then { s with symbufCount := 1, sfoNextSymShift := 0 }
  else if s.sfoNextSymShift < 0 then
    { s with
      stoSkipRemaining := s.stoSkipRemaining + 1, symbufCount := 0, sfoNextSymShift := 0 }
  else { s with symbufCount := 0, sfoNextSymShift := 0 }

def Sampler.skip (s : Sampler) : Sampler :=
  { s with stoSkipRemaining := s.stoSkipRemaining - 1, samplesInChunk := s.samplesInChunk + 1 }

def Sampler.take (s : Sampler) : Sampler :=
  { s with symbufCount := s.symbufCount + 1, samplesInChunk := s.samplesInChunk + 1 }

/-- `o` is what the FFT stage sees should this sample complete a symbol window. -/
def feedSample (d : Decoder) (o : Obs) : Decoder × List Event :=
  if 0 < d.sampler.stoSkipRemaining then ({ d with sampler := d.sampler.skip }, [])
  else
    let d := { d with sampler := d.sampler.take }
    if d.sampler.symbufCount = d.bins * d.osFactor then
      let next := stateTick d o
      ({ next.1 with sampler := next.1.sampler.shiftBoundary }, next.2)
    else (d, [])

def setStreamCursor (d : Decoder) (chunkAnchor : BitVec 64) (stepPerSample : BitVec 32) : Decoder :=
  { d with sampler := { d.sampler with
      streamChunkAnchor := chunkAnchor, streamStepPerSample := stepPerSample
      samplesInChunk := 0 } }

/-- A tick, any movement of the sample counters between ticks, or a repair switch. -/
inductive Input where
  | tick (o : Obs)
  | moveSampler (s : Sampler)
  | setCrcBruteforce (enable : Bool)
  | setCrcBruteforce2bit (enable : Bool)

def Decoder.step (d : Decoder) : Input → Decoder × List Event
  | .tick o => stateTick d o
  | .moveSampler s => ({ d with sampler := s }, [])
  | .setCrcBruteforce enable => ({ d with crcBruteforce := enable }, [])
  | .setCrcBruteforce2bit enable => ({ d with crcBruteforce2bit := enable }, [])

def Decoder.Fresh (d : Decoder) : Prop :=
  ∃ sf cr bwHz osFactor soft, loraDecoderCreateOs sf cr bwHz osFactor soft = some d

def Decoder.Reached (d : Decoder) : Prop := Mealy.Reachable Decoder.step Decoder.Fresh d

/-! ## What a life preserves -/

/-- A property that does not look at the sample counters, the SNR sums and the repair switches, and
that every tick preserves, is preserved. -/
theorem step_invariant {P : Decoder → Prop}
    (hsampler : ∀ (d : Decoder) s, P d → P { d with sampler := s })
    (hswitch : ∀ (d : Decoder) one two, P d →
      P { d with crcBruteforce := one, crcBruteforce2bit := two })
    (hsnr : ∀ (d : Decoder) sum count, P d → P { d with snrDbSum := sum, snrDbCount := count })
    (htick : ∀ d o, P d → P (tickState d o).1) (d : Decoder) (i : Input) (h : P d) :
    P (d.step i).1 := by
  cases i with
  | moveSampler s => exact hsampler d s h
  | setCrcBruteforce one => exact hswitch d one _ h
  | setCrcBruteforce2bit two => exact hswitch d _ two h
  | tick o =>
    have hacc : P (d.accumulateSnr o) := by
      unfold Decoder.accumulateSnr
      split
      next => exact hsnr d _ _ h
      next => exact h
    simp only [Decoder.step, stateTick, Decoder.applyDrift]
    split
    next => exact hsampler _ _ (htick _ o hacc)
    next => exact htick _ o hacc

/-- A legal spreading factor, no residual lock bin once the header has begun, and no header symbols
before the second downchirp. -/
structure Decoder.Inv (d : Decoder) : Prop where
  sf_lo : 7 ≤ d.sf
  sf_hi : d.sf ≤ 12
  aligned : d.state = .header ∨ d.state = .payload → d.preambleBin = 0
  header_start : d.state = .header → d.headerIdx ≤ 2 → d.headerSyms = []

variable {d : Decoder}

theorem Decoder.Inv.resetToIdle (h : d.Inv) : d.resetToIdle.Inv :=
  { sf_lo := h.sf_lo
    sf_hi := h.sf_hi
    aligned := by simp [Decoder.resetToIdle]
    header_start := by simp [Decoder.resetToIdle] }

theorem Decoder.Inv.fresh (h : d.Fresh) : d.Inv := by
  obtain ⟨sf, cr, bwHz, osFactor, soft, hcreate⟩ := h
  unfold loraDecoderCreateOs at hcreate
  split at hcreate
  next => cases hcreate
  next hrange =>
    split at hcreate
    next => cases hcreate
    next =>
      cases hcreate
      exact
        { sf_lo := by show 7 ≤ sf; omega
          sf_hi := by show sf ≤ 12; omega
          aligned := fun _ => rfl
          header_start := fun _ _ => rfl }

theorem Decoder.Inv.matchUpchirp (h : d.Inv) (o : Obs) : (matchUpchirp d o).1.Inv := by
  unfold Lora.matchUpchirp
  dsimp only
  split <;> exact ⟨h.sf_lo, h.sf_hi, h.aligned, h.header_start⟩

theorem Decoder.Inv.tickPreambleOk (h : d.Inv) (o : Obs) : (tickPreambleOk d o).1.Inv := by
  unfold Lora.tickPreambleOk
  split
  next => exact h.resetToIdle
  next =>
    split
    next => exact h.matchUpchirp o
    next =>
      split
      next => exact ⟨h.sf_lo, h.sf_hi, fun _ => rfl, fun _ _ => rfl⟩
      next => exact h.resetToIdle

theorem Decoder.Inv.decodeHeader (h : d.Inv) (hstate : d.state = .header) :
    (decodeHeader d).1.Inv := by
  have hbin : d.preambleBin = 0 := h.aligned (Or.inl hstate)
  have hset : (d.setHeader (parseHeader d.headerNibbles)).Inv :=
    ⟨h.sf_lo, h.sf_hi, h.aligned, h.header_start⟩
  have hstart : ((d.setHeader (parseHeader d.headerNibbles)).startPayload d.headerNibbles).Inv :=
    ⟨h.sf_lo, h.sf_hi, fun _ => hbin, fun hst => by cases hst⟩
  unfold Lora.decodeHeader
  dsimp only
  split
  next => exact hset.resetToIdle
  next =>
    split
    next =>
      exact Decoder.Inv.resetToIdle
        ⟨hstart.sf_lo, hstart.sf_hi, hstart.aligned, hstart.header_start⟩
    next => exact hstart

theorem Decoder.Inv.pushHeaderSymbol (h : d.Inv) (hidx : 2 ≤ d.headerIdx) (o : Obs) :
    (d.pushHeaderSymbol o).Inv := by
  unfold Decoder.pushHeaderSymbol
  split
  next =>
    split
    all_goals
      exact
        { sf_lo := h.sf_lo
          sf_hi := h.sf_hi
          aligned := h.aligned
          header_start := fun _ hle => by dsimp only at hle; omega }
  next => exact h

theorem state_pushHeaderSymbol (d : Decoder) (o : Obs) : (d.pushHeaderSymbol o).state = d.state := by
  unfold Decoder.pushHeaderSymbol
  split
  next => split <;> rfl
  next => rfl

theorem Decoder.Inv.tickHeader (h : d.Inv) (hstate : d.state = .header) (o : Obs) :
    (tickHeader d o).1.Inv := by
  unfold Lora.tickHeader
  split
  next hidx =>
    exact
      { sf_lo := h.sf_lo
        sf_hi := h.sf_hi
        aligned := h.aligned
        header_start := fun hst _ => h.header_start hst (by omega) }
  next hidx =>
    have hpush := h.pushHeaderSymbol (by omega) o
    dsimp only
    split
    next => exact hpush.decodeHeader (by rw [state_pushHeaderSymbol, hstate])
    next => exact hpush

theorem Decoder.Inv.tickPayload (h : d.Inv) (o : Obs) : (tickPayload d o).1.Inv := by
  have hpush : (d.pushPayloadSymbol o).Inv := by
    unfold Decoder.pushPayloadSymbol
    split
    next => split <;> exact ⟨h.sf_lo, h.sf_hi, h.aligned, h.header_start⟩
    next => exact h
  unfold Lora.tickPayload
  dsimp only
  split
  next =>
    exact Decoder.Inv.resetToIdle ⟨hpush.sf_lo, hpush.sf_hi, hpush.aligned, hpush.header_start⟩
  next => exact hpush

theorem Decoder.Inv.tickState (h : d.Inv) (o : Obs) : (tickState d o).1.Inv := by
  unfold Lora.tickState
  split
  next =>
    unfold tickIdle
    split
    next => exact h
    next =>
      exact
        { sf_lo := h.sf_lo
          sf_hi := h.sf_hi
          aligned := fun hst => by rcases hst with hst | hst <;> cases hst
          header_start := fun hst => by cases hst }
  next => exact h.tickPreambleOk o
  next hstate => exact h.tickHeader hstate o
  next => exact h.tickPayload o

theorem Decoder.Reached.inv (h : d.Reached) : d.Inv :=
  Mealy.Reachable.invariant h (fun _ => Decoder.Inv.fresh)
    (step_invariant
      (fun _ _ hd => ⟨hd.sf_lo, hd.sf_hi, hd.aligned, hd.header_start⟩)
      (fun _ _ _ hd => ⟨hd.sf_lo, hd.sf_hi, hd.aligned, hd.header_start⟩)
      (fun _ _ _ hd => ⟨hd.sf_lo, hd.sf_hi, hd.aligned, hd.header_start⟩)
      fun _ o hd => hd.tickState o)

end MeshcoreSniffer.Lora
