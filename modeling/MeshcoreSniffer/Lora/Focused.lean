import MeshcoreSniffer.Lora.PreambleLock
import MeshcoreSniffer.Sdr.FocusedWorker

/-!
# Time-of-arrival stamps of the focused worker

`focused.c` feeds one filtered sample in `decim` to a decoder, which stamps the stream cursor when
it locks but does not look at it (`blind_stateTick`). Mixer, filter and FFT stage are parameters.
`stamps_eq`: a stamp is the cursor past its sample plus the phase in which its chunk began.
-/

namespace MeshcoreSniffer.Lora

open Lib List

/-! ## The decoder and its cursor -/

def Decoder.erase (d : Decoder) : Decoder :=
  { d with
    sampler := { d.sampler with
      streamChunkAnchor := 0, streamStepPerSample := 0, samplesInChunk := 0 }
    frameMeta := { d.frameMeta with preambleLockSampleIdx := 0 } }

/-- A step that neither reads nor decides by what `erase` removes. -/
structure Blind (next erased : Decoder × List Event) : Prop where
  state : next.1.erase = erased.1.erase
  locks : locks next.2 = locks erased.2

variable (d : Decoder) {d' : Decoder}

theorem Blind.of_eq {d : Decoder} (h : d.erase = d'.erase) : Blind (d, []) (d', []) := ⟨h, rfl⟩

theorem blind_tickPreambleOk (o : Obs) : Blind (tickPreambleOk d o) (tickPreambleOk d.erase o) := by
  have hmatch : d.erase.binMatches o = d.binMatches o := rfl
  have hstr : d.erase.straddleTrigger o = d.straddleTrigger o := rfl
  have hcount : d.erase.preambleCount = d.preambleCount := rfl
  rw [tickPreambleOk, tickPreambleOk, hmatch, hstr, hcount]
  split
  next => exact .of_eq rfl
  next =>
    split
    next =>
      have hc : (d.erase.countUpchirp o).preambleCount = (d.countUpchirp o).preambleCount := rfl
      have hl : (d.erase.countUpchirp o).preambleLockedOnce = (d.countUpchirp o).preambleLockedOnce :=
        rfl
      rw [matchUpchirp, matchUpchirp, hc, hl]
      split
      next => exact ⟨rfl, rfl⟩
      next => exact .of_eq rfl
    next =>
      split
      next => exact .of_eq rfl
      next => exact .of_eq rfl

theorem erase_pushHeaderSymbol (o : Obs) :
    d.erase.pushHeaderSymbol o = (d.pushHeaderSymbol o).erase := by
  rw [Decoder.pushHeaderSymbol, Decoder.pushHeaderSymbol]
  have h : d.erase.headerIdx = d.headerIdx := rfl
  have h' : d.erase.softDecoding = d.softDecoding := rfl
  rw [h, h']
  split
  next => split <;> rfl
  next => rfl

theorem erase_setHeader (h : HeaderFields) : d.erase.setHeader h = (d.setHeader h).erase := rfl

theorem erase_startPayload (n : List Byte) :
    d.erase.startPayload n = (d.startPayload n).erase := rfl

theorem blind_decodeHeader : Blind (decodeHeader d) (decodeHeader d.erase) := by
  have hn : d.erase.headerNibbles = d.headerNibbles := rfl
  rw [decodeHeader, decodeHeader, hn, erase_setHeader]
  generalize d.setHeader (parseHeader d.headerNibbles) = d'
  have hok : d'.erase.frameMeta.headerCrcOk = d'.frameMeta.headerCrcOk := rfl
  dsimp only
  rw [hok, erase_startPayload]
  generalize d'.startPayload d.headerNibbles = started
  have htarget : started.erase.payloadSymTarget = started.payloadSymTarget := rfl
  rw [htarget]
  split
  next => exact .of_eq rfl
  next =>
    split
    next => exact ⟨rfl, rfl⟩
    next => exact .of_eq rfl

theorem blind_tickHeader (o : Obs) : Blind (tickHeader d o) (tickHeader d.erase o) := by
  have hidx : d.erase.headerIdx = d.headerIdx := rfl
  rw [tickHeader, tickHeader, hidx, erase_pushHeaderSymbol]
  split
  next => exact .of_eq rfl
  next =>
    have hpush : (d.pushHeaderSymbol o).erase.headerIdx = (d.pushHeaderSymbol o).headerIdx := rfl
    dsimp only
    rw [hpush]
    split
    next => exact blind_decodeHeader _
    next => exact .of_eq rfl

theorem checkCrc_erase (bytes : List Byte) : checkCrc d.erase bytes =
      ({ (checkCrc d bytes).1 with preambleLockSampleIdx := 0 }, (checkCrc d bytes).2) := by
  have hcrc : d.erase.payloadHasCrc = d.payloadHasCrc := rfl
  have hone : d.erase.crcBruteforce = d.crcBruteforce := rfl
  have htwo : d.erase.crcBruteforce2bit = d.crcBruteforce2bit := rfl
  simp only [checkCrc, hcrc, hone, htwo]
  split
  next =>
    split
    next => rfl
    next => split <;> rfl
  next => rfl

theorem blind_tickPayload (o : Obs) : Blind (tickPayload d o) (tickPayload d.erase o) := by
  have hpush : d.erase.pushPayloadSymbol o = (d.pushPayloadSymbol o).erase := by
    rw [Decoder.pushPayloadSymbol, Decoder.pushPayloadSymbol]
    have hcount : d.erase.payloadSymCount = d.payloadSymCount := rfl
    have hsoft : d.erase.softDecoding = d.softDecoding := rfl
    rw [hcount, hsoft]
    split
    next => split <;> rfl
    next => rfl
  rw [tickPayload, tickPayload, hpush]
  generalize d.pushPayloadSymbol o = d
  have htarget : d.erase.payloadSymTarget = d.payloadSymTarget := rfl
  have hcount : d.erase.payloadSymCount = d.payloadSymCount := rfl
  have hbytes : d.erase.frameBytes = d.frameBytes := rfl
  rw [htarget, hcount]
  split
  next =>
    rw [deliver, deliver, hbytes, checkCrc_erase]
    exact ⟨rfl, rfl⟩
  next => exact .of_eq rfl

theorem blind_tickState (o : Obs) : Blind (tickState d o) (tickState d.erase o) := by
  have hstate : d.erase.state = d.state := rfl
  rw [tickState, tickState, hstate]
  split
  next =>
    rw [tickIdle, tickIdle]
    split <;> exact .of_eq rfl
  next => exact blind_tickPreambleOk d o
  next => exact blind_tickHeader d o
  next => exact blind_tickPayload d o

theorem erase_accumulateSnr (o : Obs) : d.erase.accumulateSnr o = (d.accumulateSnr o).erase := by
  have hstate : d.erase.state = d.state := rfl
  rw [Decoder.accumulateSnr, Decoder.accumulateSnr, hstate]
  split <;> rfl

theorem erase_applyDrift (o : Obs) : (d.applyDrift o).erase = (d.erase.applyDrift o).erase := by
  have hstate : d.erase.state = d.state := rfl
  have hidx : d.erase.headerIdx = d.headerIdx := rfl
  rw [Decoder.applyDrift, Decoder.applyDrift, hstate, hidx]
  split <;> rfl

theorem blind_stateTick (o : Obs) : Blind (stateTick d o) (stateTick d.erase o) := by
  have htick := blind_tickState (d.accumulateSnr o) o
  rw [stateTick, stateTick, erase_accumulateSnr]
  refine ⟨?_, htick.locks⟩
  rw [erase_applyDrift, htick.state, ← erase_applyDrift]

theorem erase_shiftBoundary : ({ d with sampler := d.sampler.shiftBoundary } : Decoder).erase =
      ({ d.erase with sampler := d.erase.sampler.shiftBoundary } : Decoder).erase := by
  have hshift : d.erase.sampler.sfoNextSymShift = d.sampler.sfoNextSymShift := rfl
  rw [Sampler.shiftBoundary, Sampler.shiftBoundary, hshift]
  split
  next => rfl
  next => split <;> rfl

def Decoder.taken (d : Decoder) : Decoder := { d with sampler := d.sampler.take }

def Decoder.shifted (d : Decoder) : Decoder := { d with sampler := d.sampler.shiftBoundary }

theorem feedSample_cases (o : Obs) :
    0 < d.sampler.stoSkipRemaining ∧ feedSample d o = ({ d with sampler := d.sampler.skip }, [])
      ∨ ¬0 < d.sampler.stoSkipRemaining
        ∧ (d.taken.sampler.symbufCount = d.bins * d.osFactor
            ∧ feedSample d o = ((stateTick d.taken o).1.shifted, (stateTick d.taken o).2)
          ∨ d.taken.sampler.symbufCount ≠ d.bins * d.osFactor ∧ feedSample d o = (d.taken, [])) := by
  rw [feedSample]
  by_cases hskip : 0 < d.sampler.stoSkipRemaining
  · exact .inl ⟨hskip, if_pos hskip⟩
  · rw [if_neg hskip]
    by_cases hfull : d.taken.sampler.symbufCount = d.bins * d.osFactor
    · exact .inr ⟨hskip, .inl ⟨hfull, if_pos hfull⟩⟩
    · exact .inr ⟨hskip, .inr ⟨hfull, if_neg hfull⟩⟩

/-- **What a split cannot change.** A sample moves the decoder and fires callbacks
whatever its cursor is. -/
theorem blind_feedSample (o : Obs) : Blind (feedSample d o) (feedSample d.erase o) := by
  rcases feedSample_cases d o with ⟨hskip, heq⟩ | ⟨hskip, ⟨hfull, heq⟩ | ⟨hfull, heq⟩⟩ <;>
    rcases feedSample_cases d.erase o with ⟨hskip', heq'⟩ | ⟨hskip', ⟨hfull', heq'⟩ | ⟨hfull', heq'⟩⟩
  all_goals first
    | exact absurd hskip hskip'
    | exact absurd hskip' hskip
    | exact absurd hfull hfull'
    | exact absurd hfull' hfull
    | rw [heq, heq']
  · exact .of_eq rfl
  · -- the two decoders differ in the cursor only, before the tick and after it
    have htick := blind_stateTick d.taken o
    have htick' := blind_stateTick d.erase.taken o
    refine ⟨?_, htick.locks.trans htick'.locks.symm⟩
    rw [Decoder.shifted, erase_shiftBoundary, htick.state, Decoder.shifted,
      erase_shiftBoundary (stateTick d.erase.taken o).1, htick'.state]
    rfl
  · exact .of_eq rfl

/-! ## The stamp -/

def Sampler.cursor (s : Sampler) : BitVec 64 × BitVec 32 × BitVec 32 :=
  (s.streamChunkAnchor, s.streamStepPerSample, s.samplesInChunk)

/-- A tick leaves the cursor, and the stamp of a lock is taken from it. -/
structure Stamped (d : Decoder) (next : Decoder × List Event) : Prop where
  cursor : next.1.sampler.cursor = d.sampler.cursor
  stamp : locks next.2 ≠ 0 → next.1.frameMeta.preambleLockSampleIdx = d.lockSampleIdx

theorem Stamped.quiet {d : Decoder} {events : List Event} (h : d'.sampler.cursor = d.sampler.cursor)
    (hlocks : locks events = 0) : Stamped d (d', events) := ⟨h, fun hne => absurd hlocks hne⟩

theorem stamped_tickState (o : Obs) : Stamped d (tickState d o) := by
  rw [tickState]
  split
  next =>
    rw [tickIdle]
    split <;> exact .quiet rfl rfl
  next =>
    rw [tickPreambleOk]
    split
    next => exact .quiet rfl rfl
    split
    next =>
      rw [matchUpchirp]
      split
      next => exact ⟨rfl, fun _ => rfl⟩
      next => exact .quiet rfl rfl
    split <;> exact .quiet rfl rfl
  next =>
    have hpush : (d.pushHeaderSymbol o).sampler.cursor = d.sampler.cursor := by
      rw [Decoder.pushHeaderSymbol]
      split
      next => split <;> rfl
      next => rfl
    rw [tickHeader]
    split
    next => exact .quiet rfl rfl
    dsimp only
    generalize d.pushHeaderSymbol o = pushed at hpush ⊢
    split
    next =>
      rw [decodeHeader]
      dsimp only
      split
      next => exact .quiet hpush rfl
      split <;> exact .quiet hpush rfl
    next => exact .quiet hpush rfl
  next =>
    have hpush : (d.pushPayloadSymbol o).sampler.cursor = d.sampler.cursor := by
      rw [Decoder.pushPayloadSymbol]
      split
      next => split <;> rfl
      next => rfl
    rw [tickPayload]
    split <;> exact .quiet hpush rfl

theorem lockSampleIdx_of_cursor {d : Decoder} (h : d.sampler.cursor = d'.sampler.cursor) :
    d.lockSampleIdx = d'.lockSampleIdx := by
  simp only [Sampler.cursor, Prod.mk.injEq] at h
  rw [Decoder.lockSampleIdx, Decoder.lockSampleIdx, h.1, h.2.1, h.2.2]

theorem stamped_stateTick (o : Obs) : Stamped d (stateTick d o) := by
  have hacc : (d.accumulateSnr o).sampler.cursor = d.sampler.cursor := by
    rw [Decoder.accumulateSnr]
    split <;> rfl
  have htick := stamped_tickState (d.accumulateSnr o) o
  rw [stateTick]
  generalize tickState (d.accumulateSnr o) o = next at htick ⊢
  have hdrift : (next.1.applyDrift o).sampler.cursor = next.1.sampler.cursor
      ∧ (next.1.applyDrift o).frameMeta = next.1.frameMeta := by
    rw [Decoder.applyDrift]
    split <;> exact ⟨rfl, rfl⟩
  refine ⟨hdrift.1.trans (htick.cursor.trans hacc), fun hlock => ?_⟩
  rw [hdrift.2, htick.stamp hlock, lockSampleIdx_of_cursor hacc]

/-- A sample counts in the chunk, and the stamp of a lock counts it. -/
structure Counted (d : Decoder) (next : Decoder × List Event) : Prop where
  cursor : next.1.sampler.cursor =
    (d.sampler.streamChunkAnchor, d.sampler.streamStepPerSample, d.sampler.samplesInChunk + 1)
  stamp : locks next.2 ≠ 0 → next.1.frameMeta.preambleLockSampleIdx = d.taken.lockSampleIdx

theorem counted_feedSample (o : Obs) : Counted d (feedSample d o) := by
  rcases feedSample_cases d o with ⟨-, heq⟩ | ⟨-, ⟨-, heq⟩ | ⟨-, heq⟩⟩
  · rw [heq]
    exact ⟨rfl, fun hne => absurd rfl hne⟩
  · have htick := stamped_stateTick d.taken o
    rw [heq]
    refine ⟨?_, htick.stamp⟩
    have hshift : ∀ s : Sampler, s.shiftBoundary.cursor = s.cursor := by
      intro s
      rw [Sampler.shiftBoundary]
      split
      next => rfl
      next => split <;> rfl
    exact (hshift _).trans htick.cursor
  · rw [heq]
    exact ⟨rfl, fun hne => absurd rfl hne⟩

/-! ## The worker -/

/-- Mixing a sample into the delay line, filtering it, and what the FFT stage measures. -/
structure Frontend (δ X Y : Type) where
  mix : δ → X → δ
  fir : δ → Y
  observe : List Y → Obs

/-- `struct focused_worker`, with the samples its decoder was fed. `decim` is an `int`
and positive. -/
structure FocusedWorker (δ Y : Type) where
  decim : Nat
  decim_pos : 0 < decim
  decim_lt : decim < 2 ^ 31
  decimPhase : Nat := 0
  delay : δ
  dec : Decoder
  cursor : BitVec 64
  fed : List Y := []

section

variable {δ X Y : Type} (fe : Frontend δ X Y)

def lockStamp (next : Decoder × List Event) : List (BitVec 64) :=
  if locks next.2 = 0 then [] else [next.1.frameMeta.preambleLockSampleIdx]

/-- The body of the loop of `focused_process_chunk`. -/
def processSample (w : FocusedWorker δ Y) (x : X) : FocusedWorker δ Y × List (BitVec 64) :=
  let delay := fe.mix w.delay x
  if w.decim ≤ w.decimPhase + 1 then
    let fed := w.fed ++ [fe.fir delay]
    let next := feedSample w.dec (fe.observe fed)
    ({ w with decimPhase := 0, delay := delay, dec := next.1, fed := fed }, lockStamp next)
  else ({ w with decimPhase := w.decimPhase + 1, delay := delay }, [])

def FocusedWorker.announced (w : FocusedWorker δ Y) (chunkStart : BitVec 64) : FocusedWorker δ Y :=
  { w with dec := setStreamCursor w.dec chunkStart (BitVec.ofNat 32 w.decim) }

/-- `focused_process_chunk`, with the stamps it led to. -/
def focusedProcessChunk (w : FocusedWorker δ Y) (samples : List X) (chunkStart : BitVec 64) :
    FocusedWorker δ Y × List (BitVec 64) :=
  Mealy.run (processSample fe) (w.announced chunkStart) samples

/-- One turn of `focused_thread`: process what was read and move the cursor. -/
def processBatch (w : FocusedWorker δ Y) (samples : List X) :
    FocusedWorker δ Y × List (BitVec 64) :=
  let next := focusedProcessChunk fe w samples w.cursor
  ({ next.1 with cursor := w.cursor + BitVec.ofNat 64 samples.length }, next.2)

def stampsOf (w : FocusedWorker δ Y) (chunks : List (List X)) : List (BitVec 64) :=
  (Mealy.run (processBatch fe) w chunks).2

/-! ## Where the decoder locks -/

/-- The samples of a stream at which the decoder locks, counted from `n`. -/
def lockPositions (n : Nat) (w : FocusedWorker δ Y) : List X → List Nat
  | [] => []
  | x :: xs =>
    let next := processSample fe w x
    (if next.2 = [] then [] else [n]) ++ lockPositions (n + 1) next.1 xs

/-- Where the chunk begins that holds sample `i`; the chunks begin at `offset`. -/
def chunkStart (offset : Nat) : List (List X) → Nat → Nat
  | [], _ => offset
  | c :: cs, i => if i < offset + c.length then offset else chunkStart (offset + c.length) cs i

def FocusedWorker.erase (w : FocusedWorker δ Y) : FocusedWorker δ Y :=
  { w with dec := w.dec.erase, cursor := 0 }

theorem lockStamp_eq_nil {next : Decoder × List Event} : lockStamp next = [] ↔ locks next.2 = 0 := by
  rw [lockStamp]
  split
  next h => exact iff_of_true rfl h
  next h => exact iff_of_false (cons_ne_nil _ _) h

def FocusedWorker.feed (w : FocusedWorker δ Y) (x : X) : Decoder × List Event :=
  feedSample w.dec (fe.observe (w.fed ++ [fe.fir (fe.mix w.delay x)]))

variable {w : FocusedWorker δ Y} {n φ offset : Nat} {anchor start : BitVec 64}

theorem processSample_fed (h : w.decim ≤ w.decimPhase + 1) (x : X) : processSample fe w x =
      ({ w with
          decimPhase := 0
          delay := fe.mix w.delay x
          dec := (w.feed fe x).1
          fed := w.fed ++ [fe.fir (fe.mix w.delay x)] },
        lockStamp (w.feed fe x)) := if_pos h

theorem processSample_held (h : ¬w.decim ≤ w.decimPhase + 1) (x : X) : processSample fe w x =
      ({ w with decimPhase := w.decimPhase + 1, delay := fe.mix w.delay x }, []) := if_neg h

theorem processSample_erase (w : FocusedWorker δ Y) (x : X) :
    (processSample fe w x).1.erase = (processSample fe w.erase x).1.erase
      ∧ ((processSample fe w x).2 = [] ↔ (processSample fe w.erase x).2 = []) := by
  by_cases h : w.decim ≤ w.decimPhase + 1
  · have hfeed : Blind (w.feed fe x) (w.erase.feed fe x) := blind_feedSample w.dec _
    have h' : w.erase.decim ≤ w.erase.decimPhase + 1 := h
    rw [processSample_fed fe h, processSample_fed fe h']
    constructor
    · simp only [FocusedWorker.erase, hfeed.state]
    · rw [lockStamp_eq_nil, lockStamp_eq_nil, hfeed.locks]
  · have h' : ¬w.erase.decim ≤ w.erase.decimPhase + 1 := h
    rw [processSample_held fe h, processSample_held fe h']
    exact ⟨rfl, Iff.rfl⟩

theorem lockPositions_erase {w' : FocusedWorker δ Y} (h : w.erase = w'.erase) (n : Nat)
    (xs : List X) : lockPositions fe n w xs = lockPositions fe n w' xs
      ∧ (Mealy.run (processSample fe) w xs).1.erase = (Mealy.run (processSample fe) w' xs).1.erase := by
  induction xs generalizing w w' n with
  | nil => exact ⟨rfl, h⟩
  | cons x xs ih =>
    obtain ⟨hnext, hfires⟩ := processSample_erase fe w x
    obtain ⟨hnext', hfires'⟩ := processSample_erase fe w' x
    rw [h] at hnext hfires
    obtain ⟨hpos, hrun⟩ := ih (hnext.trans hnext'.symm) (n + 1)
    refine ⟨?_, hrun⟩
    rw [lockPositions, lockPositions]
    simp only [hpos, hfires.trans hfires'.symm]

theorem lockPositions_append (n : Nat) (w : FocusedWorker δ Y) (xs ys : List X) :
    lockPositions fe n w (xs ++ ys) = lockPositions fe n w xs
      ++ lockPositions fe (n + xs.length) (Mealy.run (processSample fe) w xs).1 ys := by
  induction xs generalizing n w with
  | nil => rfl
  | cons x xs ih =>
    rw [cons_append, lockPositions, lockPositions, ih, append_assoc, length_cons,
      Nat.add_right_comm, Nat.add_assoc]
    rfl

theorem lockPositions_bounds {xs : List X} {i : Nat} (h : i ∈ lockPositions fe n w xs) :
    n ≤ i ∧ i < n + xs.length := by
  induction xs generalizing n w with
  | nil => cases h
  | cons x xs ih =>
    rw [lockPositions] at h
    rw [length_cons]
    rcases mem_append.mp h with h | h
    · split at h
      next => cases h
      next =>
        obtain rfl := mem_singleton.mp h
        omega
    · have := ih h
      omega

/-! ## Inside a chunk -/

/-- After `n` samples of a chunk that began in phase `φ`. -/
structure InChunk (anchor : BitVec 64) (φ n : Nat) (w : FocusedWorker δ Y) : Prop where
  phase : w.decimPhase = (φ + n) % w.decim
  cursor : w.dec.sampler.cursor =
    (anchor, BitVec.ofNat 32 w.decim, BitVec.ofNat 32 ((φ + n) / w.decim))

theorem inChunk_announced (w : FocusedWorker δ Y) (h : w.decimPhase < w.decim) (anchor : BitVec 64) :
    InChunk anchor w.decimPhase 0 (w.announced anchor) where
  phase := by
    rw [Nat.add_zero]
    exact (Nat.mod_eq_of_lt h).symm
  cursor := by
    rw [Nat.add_zero, show (w.announced anchor).decim = w.decim from rfl, Nat.div_eq_of_lt h]
    rfl

theorem lockSampleIdx_taken {d : Decoder} {decim q : Nat}
    (h : d.sampler.cursor = (anchor, BitVec.ofNat 32 decim, BitVec.ofNat 32 q))
    (hdecim : decim < 2 ^ 32) (hq : q + 1 < 2 ^ 32) :
    d.taken.lockSampleIdx = anchor + BitVec.ofNat 64 ((q + 1) * decim) := by
  simp only [Sampler.cursor, Prod.mk.injEq] at h
  obtain ⟨h1, h2, h3⟩ := h
  have hidx : d.taken.lockSampleIdx = d.sampler.streamChunkAnchor
      + (d.sampler.samplesInChunk + 1).setWidth 64 * d.sampler.streamStepPerSample.setWidth 64 := rfl
  rw [hidx, h1, h2, h3]
  congr 1
  apply BitVec.eq_of_toNat_eq
  have hcount : ((BitVec.ofNat 32 q + 1).setWidth 64).toNat = q + 1 := by
    rw [show (1 : BitVec 32) = BitVec.ofNat 32 1 from rfl, ← BitVec.ofNat_add]
    simp only [BitVec.toNat_setWidth, BitVec.toNat_ofNat]
    omega
  have hstep : ((BitVec.ofNat 32 decim).setWidth 64).toNat = decim := by
    simp only [BitVec.toNat_setWidth, BitVec.toNat_ofNat]
    omega
  rw [BitVec.toNat_mul, hcount, hstep, BitVec.toNat_ofNat]

theorem InChunk.next (h : InChunk anchor φ n w) (hfit : φ + n + 1 < 2 ^ 32) (x : X) :
    InChunk anchor φ (n + 1) (processSample fe w x).1
      ∧ ((processSample fe w x).2 = []
        ∨ (processSample fe w x).2 = [anchor + BitVec.ofNat 64 (φ + n + 1)]) := by
  have hpos := w.decim_pos
  have hmod := Nat.mod_lt (φ + n) hpos
  have hdiv := Nat.div_add_mod (φ + n) w.decim
  have hphase := h.phase
  have hcount := counted_feedSample w.dec (fe.observe (w.fed ++ [fe.fir (fe.mix w.delay x)]))
  by_cases hfull : w.decim ≤ w.decimPhase + 1
  · -- the phase is the last one, so the division steps
    have hsum : φ + n + 1 = ((φ + n) / w.decim + 1) * w.decim := by
      rw [Nat.add_mul, Nat.mul_comm, Nat.one_mul]
      omega
    have hq : (φ + n) / w.decim + 1 < 2 ^ 32 := by
      have := Nat.div_le_self (φ + n) w.decim
      omega
    rw [processSample_fed fe hfull]
    refine ⟨⟨?_, ?_⟩, ?_⟩
    · dsimp only
      rw [← Nat.add_assoc, hsum, Nat.mul_mod_left]
    · dsimp only
      rw [← Nat.add_assoc, hsum, Nat.mul_div_cancel _ hpos]
      refine hcount.cursor.trans ?_
      have hcur := h.cursor
      simp only [Sampler.cursor, Prod.mk.injEq] at hcur
      rw [hcur.1, hcur.2.1, hcur.2.2, BitVec.ofNat_add]
      rfl
    · dsimp only
      rw [lockStamp]
      split
      next => exact .inl rfl
      next hlock =>
        rw [hsum, ← lockSampleIdx_taken h.cursor (by omega) hq]
        exact .inr (congrArg (fun s => [s]) (hcount.stamp hlock))
  · rw [processSample_held fe hfull]
    have hsum : φ + (n + 1) = w.decim * ((φ + n) / w.decim) + ((φ + n) % w.decim + 1) := by omega
    have hmod' : (φ + (n + 1)) % w.decim = (φ + n) % w.decim + 1 := by
      rw [hsum, Nat.mul_add_mod, Nat.mod_eq_of_lt (by omega)]
    have hdiv' : (φ + (n + 1)) / w.decim = (φ + n) / w.decim := by
      rw [hsum, Nat.mul_add_div hpos, 
        Nat.div_eq_of_lt (show (φ + n) % w.decim + 1 < w.decim by omega), Nat.add_zero]
    refine ⟨⟨?_, ?_⟩, .inl rfl⟩
    · dsimp only
      rw [hphase, hmod']
    · dsimp only
      rw [hdiv']
      exact h.cursor

theorem run_inChunk (h : InChunk (start + BitVec.ofNat 64 offset) φ n w) (xs : List X)
    (hfit : φ + n + xs.length < 2 ^ 32) : InChunk (start + BitVec.ofNat 64 offset) φ (n + xs.length)
        (Mealy.run (processSample fe) w xs).1
      ∧ (Mealy.run (processSample fe) w xs).2 = (lockPositions fe (offset + n) w xs).map
          fun i => start + BitVec.ofNat 64 (i + 1 + φ) := by
  induction xs generalizing n w with
  | nil => exact ⟨h, rfl⟩
  | cons x xs ih =>
    rw [length_cons] at hfit
    obtain ⟨hnext, hstamp⟩ := h.next fe (by omega) x
    obtain ⟨hend, hrest⟩ := ih hnext (by omega)
    rw [length_cons, ← Nat.add_assoc, Nat.add_right_comm n]
    refine ⟨hend, ?_⟩
    rw [Mealy.run, lockPositions]
    dsimp only
    rw [hrest, map_append, Nat.add_assoc offset n 1]
    congr 1
    rcases hstamp with hnone | hone
    · rw [hnone]
      rfl
    · rw [hone, if_neg (cons_ne_nil _ _), map_singleton, BitVec.add_assoc,
        ← BitVec.ofNat_add]
      congr 3
      omega

theorem decim_processSample (w : FocusedWorker δ Y) (x : X) :
    (processSample fe w x).1.decim = w.decim := by
  rw [processSample]
  split <;> rfl

theorem decim_run (w : FocusedWorker δ Y) (xs : List X) :
    (Mealy.run (processSample fe) w xs).1.decim = w.decim :=
  Mealy.run_invariant (P := fun v => v.decim = w.decim) (processSample fe)
    (fun v x hv => (decim_processSample fe v x).trans hv) rfl xs

/-! ## Whole streams -/

theorem stamps_from (hphase : w.decimPhase = offset % w.decim)
    (hcursor : w.cursor = start + BitVec.ofNat 64 offset) {chunks : List (List X)}
    (hbatch : ∀ c ∈ chunks, c.length ≤ Sdr.focusedBatchSamples) :
    stampsOf fe w chunks = (lockPositions fe offset w chunks.flatten).map
      fun i => start + BitVec.ofNat 64 (i + 1 + chunkStart offset chunks i % w.decim) := by
  induction chunks generalizing offset w with
  | nil => rfl
  | cons c cs ih =>
    have hlt := Nat.mod_lt offset w.decim_pos
    have hdecim := w.decim_lt
    have hlen := hbatch c mem_cons_self
    rw [Sdr.focusedBatchSamples] at hlen
    have hstart : InChunk (start + BitVec.ofNat 64 offset) (offset % w.decim) 0
        (w.announced w.cursor) := by
      rw [← hphase, ← hcursor]
      exact inChunk_announced w (hphase ▸ hlt) w.cursor
    obtain ⟨hend, hstamps⟩ := run_inChunk fe hstart c (by omega)
    have hsame : (w.announced w.cursor).erase = w.erase := rfl
    obtain ⟨hpos, herase⟩ := lockPositions_erase fe hsame offset c
    have hdec : (processBatch fe w c).1.decim = w.decim := decim_run fe (w.announced w.cursor) c
    have hphase' : (processBatch fe w c).1.decimPhase
        = (offset + c.length) % (processBatch fe w c).1.decim := by
      have hlast := hend.phase
      have hkept : (Mealy.run (processSample fe) (w.announced w.cursor) c).1.decim = w.decim := hdec
      rw [hkept, Nat.zero_add, Nat.mod_add_mod] at hlast
      rwa [hdec]
    have hcursor' : (processBatch fe w c).1.cursor
        = start + BitVec.ofNat 64 (offset + c.length) := by
      rw [BitVec.ofNat_add, ← BitVec.add_assoc, ← hcursor]
      rfl
    have hnext := ih hphase' hcursor' fun b hb => hbatch b (mem_cons_of_mem c hb)
    have hsame' : (processBatch fe w c).1.erase = (Mealy.run (processSample fe) w c).1.erase := herase
    have hrest := (lockPositions_erase fe hsame' (offset + c.length) cs.flatten).1
    have hrun : stampsOf fe w (c :: cs)
        = (processBatch fe w c).2 ++ stampsOf fe (processBatch fe w c).1 cs := rfl
    have hbatch₁ : (processBatch fe w c).2 = (Mealy.run (processSample fe) (w.announced w.cursor) c).2 :=
      rfl
    rw [hrun, hnext, hbatch₁, hstamps, Nat.add_zero, hpos, hrest, flatten_cons,
      lockPositions_append, map_append, hdec]
    congr 1
    · refine map_congr_left fun i hi => ?_
      have hb := lockPositions_bounds fe hi
      rw [chunkStart, if_pos hb.2]
    · refine map_congr_left fun i hi => ?_
      have hb := lockPositions_bounds fe hi
      rw [chunkStart, if_neg (Nat.not_lt.mpr hb.1)]

theorem add_ofNat_inj {start : BitVec 64} {n a b : Nat} (ha : a < 2 ^ 64) (hb : b < 2 ^ 64) :
    start + BitVec.ofNat 64 (n + a) = start + BitVec.ofNat 64 (n + b) ↔ a = b := by
  rw [add_right_inj, BitVec.ofNat_add, BitVec.ofNat_add, add_right_inj]
  refine ⟨fun h => ?_, congrArg _⟩
  have hnat := congrArg BitVec.toNat h
  rwa [BitVec.toNat_ofNat, BitVec.toNat_ofNat, Nat.mod_eq_of_lt ha, Nat.mod_eq_of_lt hb] at hnat

/-- **Stamps.** The decoder locks at samples that do not depend on the split, and each stamp is the
cursor past its sample plus the phase in which its chunk began. So it is the index of its sample for
no lock at all, the cursor past it if and only if its chunk begins in phase zero, and the same for
two splits if and only if the chunks begin in the same phase. -/
theorem stamps_eq (w : FocusedWorker δ Y) (hphase : w.decimPhase = 0) (chunks : List (List X))
    (hbatch : ∀ c ∈ chunks, c.length ≤ Sdr.focusedBatchSamples) :
    (stampsOf fe w chunks = (lockPositions fe 0 w chunks.flatten).map
        fun i => w.cursor + BitVec.ofNat 64 (i + 1 + chunkStart 0 chunks i % w.decim))
      ∧ ((stampsOf fe w chunks = (lockPositions fe 0 w chunks.flatten).map
            fun i => w.cursor + BitVec.ofNat 64 i)
          ↔ lockPositions fe 0 w chunks.flatten = [])
      ∧ ((stampsOf fe w chunks = (lockPositions fe 0 w chunks.flatten).map
            fun i => w.cursor + BitVec.ofNat 64 (i + 1))
          ↔ ∀ i ∈ lockPositions fe 0 w chunks.flatten, w.decim ∣ chunkStart 0 chunks i)
      ∧ ∀ chunks', chunks'.flatten = chunks.flatten → (∀ c ∈ chunks', c.length ≤ Sdr.focusedBatchSamples) →
        (stampsOf fe w chunks' = stampsOf fe w chunks
          ↔ ∀ i ∈ lockPositions fe 0 w chunks.flatten,
            chunkStart 0 chunks' i % w.decim = chunkStart 0 chunks i % w.decim) := by
  have hphase' : w.decimPhase = 0 % w.decim := by rw [hphase, Nat.zero_mod]
  have hcursor : w.cursor = w.cursor + BitVec.ofNat 64 0 := (BitVec.add_zero _).symm
  have hstamps := stamps_from fe hphase' hcursor hbatch
  have hfits : ∀ n, n % w.decim < 2 ^ 32 := fun n =>
    (Nat.mod_lt n w.decim_pos).trans (w.decim_lt.trans (by decide))
  refine ⟨hstamps, ?_, ?_, fun chunks' hflat hbatch' => ?_⟩
  · rw [hstamps, map_inj_left, eq_nil_iff_forall_not_mem]
    refine forall₂_congr fun i _ => iff_false_intro fun hindex => ?_
    have hover := hfits (chunkStart 0 chunks i)
    rw [Nat.add_assoc] at hindex
    have hzero := (add_ofNat_inj (b := 0) (by omega) (by decide)).mp hindex
    omega
  · rw [hstamps, map_inj_left]
    refine forall₂_congr fun i _ => ?_
    rw [Nat.dvd_iff_mod_eq_zero]
    exact add_ofNat_inj (b := 0) ((hfits _).trans (by decide)) (by decide)
  · rw [stamps_from fe hphase' hcursor hbatch', hstamps, hflat, map_inj_left]
    exact forall₂_congr fun i _ =>
      add_ofNat_inj ((hfits _).trans (by decide)) ((hfits _).trans (by decide))

end

def upchirpWorker : FocusedWorker Unit Unit where
  decim := 2
  decim_pos := by decide
  decim_lt := by decide
  delay := ()
  dec := freshDecoder
  cursor := 0

def upchirpFrontend : Frontend Unit Unit Unit where
  mix _ _ := ()
  fir _ := ()
  observe _ :=
    { sym := 10, peak := 10, noise := 1, snrDb := 20, trimInput := 0, sfoShift := 0, llrs := [] }

theorem lockPositions_upchirps :
    lockPositions upchirpFrontend 0 upchirpWorker (replicate 1280 ()) = [1279] := by
  decide +kernel

def oneChunk : List (List Unit) := [List.replicate 1280 ()]

def twoChunks : List (List Unit) := [[()], List.replicate 1279 ()]

theorem flatten_oneChunk : oneChunk.flatten = replicate 1280 () := flatten_singleton

theorem flatten_twoChunks : twoChunks.flatten = replicate 1280 () := by
  rw [twoChunks, flatten_cons, flatten_singleton, singleton_append,
    ← replicate_succ]

theorem oneChunk_batch : ∀ c ∈ oneChunk, c.length ≤ Sdr.focusedBatchSamples := by
  rw [oneChunk, forall_mem_singleton, length_replicate]
  decide

theorem twoChunks_batch : ∀ c ∈ twoChunks, c.length ≤ Sdr.focusedBatchSamples := by
  rw [twoChunks, forall_mem_cons, forall_mem_singleton, length_replicate]
  decide

theorem chunkStart_oneChunk : chunkStart 0 oneChunk 1279 = 0 := by
  rw [oneChunk, chunkStart, length_replicate]
  rfl

theorem chunkStart_twoChunks : chunkStart 0 twoChunks 1279 = 1 := by
  rw [twoChunks, chunkStart, chunkStart, length_replicate]
  rfl

theorem stamps_eq_upchirps :
    stampsOf upchirpFrontend upchirpWorker oneChunk = [1280]
      ∧ stampsOf upchirpFrontend upchirpWorker oneChunk
          ≠ (lockPositions upchirpFrontend 0 upchirpWorker oneChunk.flatten).map
              (fun i => upchirpWorker.cursor + BitVec.ofNat 64 i)
      ∧ stampsOf upchirpFrontend upchirpWorker oneChunk
          = (lockPositions upchirpFrontend 0 upchirpWorker oneChunk.flatten).map
              (fun i => upchirpWorker.cursor + BitVec.ofNat 64 (i + 1))
      ∧ stampsOf upchirpFrontend upchirpWorker twoChunks
          ≠ stampsOf upchirpFrontend upchirpWorker oneChunk := by
  obtain ⟨hstamp, hindex, hcursor, hsplit⟩ :=
    stamps_eq upchirpFrontend upchirpWorker rfl oneChunk oneChunk_batch
  have hsplit := hsplit twoChunks (flatten_twoChunks.trans flatten_oneChunk.symm) twoChunks_batch
  rw [flatten_oneChunk, lockPositions_upchirps, forall_mem_singleton] at hcursor hsplit
  rw [flatten_oneChunk, lockPositions_upchirps] at hstamp hindex
  rw [flatten_oneChunk, lockPositions_upchirps]
  refine ⟨hstamp.trans ?_, fun h => cons_ne_nil _ _ (hindex.mp h), hcursor.mpr ?_, fun h => ?_⟩
  · rw [map_singleton, chunkStart_oneChunk]
    rfl
  · rw [chunkStart_oneChunk]
    exact Nat.dvd_zero _
  · have hsame := hsplit.mp h
    rw [chunkStart_oneChunk, chunkStart_twoChunks] at hsame
    exact absurd hsame (by decide)

/-- **The split shows.** One stream, two ways to cut it, two stamps, and neither is the index of the
sample with the lock. -/
theorem stamps_depend_on_split :
    oneChunk.flatten = twoChunks.flatten
      ∧ lockPositions upchirpFrontend 0 upchirpWorker oneChunk.flatten = [1279]
      ∧ stampsOf upchirpFrontend upchirpWorker oneChunk = [1280]
      ∧ stampsOf upchirpFrontend upchirpWorker twoChunks = [1281] := by
  have hphase : upchirpWorker.decimPhase = 0 % upchirpWorker.decim := rfl
  have hcursor : upchirpWorker.cursor = 0 + BitVec.ofNat 64 0 := rfl
  refine ⟨flatten_oneChunk.trans flatten_twoChunks.symm, ?_, ?_, ?_⟩
  · rw [flatten_oneChunk, lockPositions_upchirps]
  · rw [stamps_from upchirpFrontend hphase hcursor oneChunk_batch, flatten_oneChunk,
      lockPositions_upchirps]
    rw [map_singleton, chunkStart_oneChunk]
    rfl
  · rw [stamps_from upchirpFrontend hphase hcursor twoChunks_batch, flatten_twoChunks,
      lockPositions_upchirps]
    rw [map_singleton, chunkStart_twoChunks]
    rfl

end MeshcoreSniffer.Lora
