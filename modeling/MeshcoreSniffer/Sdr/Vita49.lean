import MeshcoreSniffer.Lib.BitFlip
import MeshcoreSniffer.Lib.Loads

/-!
# VITA 49 input

The datagrams of `vita49.c`. What lies in the receive buffer behind the datagram is left over from
earlier ones and must not be looked at (`vrtParseHeader_spec`, `vrtHandleContext_spec`,
`receive_inside`).
-/

namespace MeshcoreSniffer.Sdr.Vita49

open Lib

/-! ## Words -/

abbrev Reads := Loads Nat Byte

def be32 (p : Nat) : Reads (BitVec 32) := do
  let b₀ ← Loads.cell p
  let b₁ ← Loads.cell (p + 1)
  let b₂ ← Loads.cell (p + 2)
  let b₃ ← Loads.cell (p + 3)
  return b₀ ++ b₁ ++ b₂ ++ b₃

def readBe64 (p : Nat) : Reads (BitVec 64) := do
  let hi ← be32 p
  let lo ← be32 (p + 4)
  return hi ++ lo

/-! The bit fields of the first word of a packet. -/

def pktType (w : BitVec 32) : BitVec 32 := w >>> 28 &&& 0xF

def classId (w : BitVec 32) : BitVec 32 := w >>> 27 &&& 0x1

def trailerBit (w : BitVec 32) : BitVec 32 := w >>> 26 &&& 0x1

def tsi (w : BitVec 32) : BitVec 32 := w >>> 22 &&& 0x3

def tsf (w : BitVec 32) : BitVec 32 := w >>> 20 &&& 0x3

def pktCount (w : BitVec 32) : BitVec 32 := w >>> 16 &&& 0xF

def pktSizeW (w : BitVec 32) : Nat := (w &&& 0xFFFF).toNat

def vrtTypeSignalDataNoSid : BitVec 32 := 0x0

def vrtTypeSignalData : BitVec 32 := 0x1

def vrtTypeIfContext : BitVec 32 := 0x4

def vrtTypeExtContext : BitVec 32 := 0x5

def vrlMagic : BitVec 32 := 0x56524C50

/-! ## Signal data -/

/-- Where the packet starts, and the length without the wrapper's trailer. -/
def vrlStrip (pktLen : Nat) : Reads (Nat × Nat) := do
  if 12 ≤ pktLen then
    let w0 ← be32 0
    if w0 = vrlMagic then return (8, pktLen - 4) else return (0, pktLen)
  else return (0, pktLen)

def vrtParseHeader (pktLen : Nat) : Reads (Option (Nat × Nat)) := do
  if pktLen < 4 then return none
  else
    let (vrlOff, pktLen) ← vrlStrip pktLen
    let w0 ← be32 vrlOff
    if pktType w0 ≠ vrtTypeSignalDataNoSid ∧ pktType w0 ≠ vrtTypeSignalData then return none
    else if pktLen - vrlOff < pktSizeW w0 * 4 ∨ pktSizeW w0 * 4 < 4 then return none
    else
      let hdrWords := 1 + (if pktType w0 = vrtTypeSignalData then 1 else 0) +
        (if classId w0 ≠ 0 then 2 else 0) + (if tsi w0 ≠ 0 then 1 else 0) +
        (if tsf w0 ≠ 0 then 2 else 0)
      let trailerWords := if trailerBit w0 ≠ 0 then 1 else 0
      if pktSizeW w0 ≤ hdrWords + trailerWords then return none
      else return some (vrlOff + hdrWords * 4, (pktSizeW w0 - hdrWords - trailerWords) * 4)

/-! ## Context -/

inductive IqFormat where
  | ci8
  | ci16
  | cf32
  deriving DecidableEq

def cifRfRefFreq : BitVec 32 := 1 <<< 27

def cifSampleRate : BitVec 32 := 1 <<< 21

def cifDataFormat : BitVec 32 := 1 <<< 15

/-- The indicator bit of a field, and its words. -/
def cifFields : List (BitVec 32 × Nat) :=
  [(1 <<< 31, 1), (1 <<< 30, 1), (1 <<< 29, 2), (1 <<< 28, 2), (cifRfRefFreq, 2), (1 <<< 26, 2),
    (1 <<< 25, 2), (1 <<< 24, 1), (1 <<< 23, 1), (1 <<< 22, 1), (cifSampleRate, 2), (1 <<< 20, 2),
    (1 <<< 19, 1), (1 <<< 18, 1), (1 <<< 17, 2), (1 <<< 16, 1), (cifDataFormat, 2)]

def payloadFormatToIq (fw : BitVec 32) : Option IqFormat :=
  let dataItemFormat := fw >>> 24 &&& 0x1F
  let packingSize := (fw >>> 6 &&& 0x3F) + 1
  if dataItemFormat = 0x1E then
    if packingSize = 32 then some .cf32 else none
  else if dataItemFormat = 0x00 then
    if packingSize = 8 then some .ci8 else if packingSize = 16 then some .ci16 else none
  else none

structure Context where
  rfFreqHz : Option ℚ := none
  sampRate : Option ℚ := none
  fmt : Option IqFormat := none
  fmtUnsupported : Bool := false

def hertz (v : BitVec 64) : ℚ := v.toInt / 2 ^ 20

def readField (p : Nat) (bit : BitVec 32) (ctx : Context) : Reads Context := do
  if bit = cifRfRefFreq then
    let val ← readBe64 p
    return { ctx with rfFreqHz := some (hertz val) }
  else if bit = cifSampleRate then
    let val ← readBe64 p
    return { ctx with sampRate := some (hertz val) }
  else if bit = cifDataFormat then
    let fw ← be32 p
    match payloadFormatToIq fw with
    | some f => return { ctx with fmt := some f }
    | none => return { ctx with fmtUnsupported := true }
  else return ctx

def walkFields (vrt pktSizeW : Nat) (cif0 : BitVec 32) :
    List (BitVec 32 × Nat) → Nat → Context → Reads (Option Context)
  | [], _, ctx => return some ctx
  | (bit, words) :: fields, offW, ctx => do
    if cif0 &&& bit = 0 then walkFields vrt pktSizeW cif0 fields offW ctx
    else if pktSizeW < offW + words then return none
    else
      let ctx ← readField (vrt + 4 * offW) bit ctx
      walkFields vrt pktSizeW cif0 fields (offW + words) ctx

/-- `vrt_handle_context` up to the end of its loop. -/
def readContext (vrt vrtLen : Nat) : Reads (Option Context) := do
  if vrtLen < 8 then return none
  else
    let w0 ← be32 vrt
    if vrtLen < pktSizeW w0 * 4 ∨ pktSizeW w0 < 2 then return none
    else
      let offW := 2 + (if classId w0 ≠ 0 then 2 else 0) + (if tsi w0 ≠ 0 then 1 else 0) +
        (if tsf w0 ≠ 0 then 2 else 0)
      if pktSizeW w0 ≤ offW then return none
      else
        let cif0 ← be32 (vrt + 4 * offW)
        walkFields vrt (pktSizeW w0) cif0 cifFields (offW + 1) {}

structure Options where
  sampleRate : BitVec 32 := 0
  centerFreqHz : BitVec 64 := 0
  iqFormatSet : Bool := false

structure Settings where
  sampRate : ℚ := 0
  centerFreq : ℚ := 0
  iqFormat : IqFormat := .ci8
  ctxLogged : Bool := false

/-- The first context that says something is taken up, where the command line did not pin the
setting. -/
def Settings.adopt (opt : Options) (s : Settings) (ctx : Context) : Settings :=
  if ctx.rfFreqHz = none ∧ ctx.sampRate = none ∧ ctx.fmt = none ∧ ctx.fmtUnsupported = false then s
  else if s.ctxLogged then s
  else
    { sampRate := if opt.sampleRate = 0 then ctx.sampRate.getD s.sampRate else s.sampRate
      centerFreq := if opt.centerFreqHz = 0 then ctx.rfFreqHz.getD s.centerFreq else s.centerFreq
      iqFormat := if opt.iqFormatSet then s.iqFormat else ctx.fmt.getD s.iqFormat
      ctxLogged := true }

def vrtHandleContext (opt : Options) (vrt vrtLen : Nat) (s : Settings) : Reads Settings := do
  match ← readContext vrt vrtLen with
  | some ctx => return s.adopt opt ctx
  | none => return s

/-! ## The receive loop -/

inductive Samples where
  | float (words : List (BitVec 32))
  | int8 (bytes : List Byte)
  deriving DecidableEq

def highByte (p : Nat) : Reads Byte := do
  let hi ← Loads.cell p
  let _ ← Loads.cell (p + 1)
  return hi

/-- The switch over the sample format; `alloc` is whether `malloc` has memory. -/
def convert (fmt : IqFormat) (alloc : Bool) (payload payloadBytes : Nat) : Reads (Option Samples) :=
  match fmt with
  | .cf32 => do
    let numSamples := payloadBytes / 8
    if numSamples = 0 ∨ alloc = false then return none
    else return some (.float (← Loads.times (fun i => be32 (payload + 4 * i)) 0 (numSamples * 2)))
  | .ci16 => do
    let numSamples := payloadBytes / 4
    if numSamples = 0 ∨ alloc = false then return none
    else return some (.int8 (← Loads.times (fun i => highByte (payload + 2 * i)) 0 (numSamples * 2)))
  | .ci8 => do
    let numSamples := payloadBytes / 2
    if numSamples = 0 ∨ alloc = false then return none
    else return some (.int8 (← Loads.times (fun i => Loads.cell (payload + i)) 0 (numSamples * 2)))

structure Receiver where
  settings : Settings := {}
  lastCount : Option (BitVec 32) := none
  totalPkts : Nat := 0
  skippedPkts : Nat := 0
  gapPkts : Nat := 0
  pushed : List Samples := []

/-- `none` for anything but a context packet. -/
def receiveContext (opt : Options) (len : Nat) (s : Settings) : Reads (Option Settings) := do
  let (ctxOff, ctxLen) ← vrlStrip len
  if ctxOff + 4 < ctxLen then
    let cw0 ← be32 ctxOff
    if pktType cw0 = vrtTypeIfContext ∨ pktType cw0 = vrtTypeExtContext then
      return some (← vrtHandleContext opt ctxOff (ctxLen - ctxOff) s)
    else return none
  else return none

def sequenceCheck (r : Receiver) : Reads Receiver := do
  let first ← be32 0
  let w0 ← be32 (if first = vrlMagic then 8 else 0)
  let gap := match r.lastCount with
    | some last => decide (pktCount w0 ≠ (last + 1) &&& 0xF)
    | none => false
  return { r with
    lastCount := some (pktCount w0)
    totalPkts := r.totalPkts + 1
    gapPkts := if gap then r.gapPkts + 1 else r.gapPkts }

/-- One datagram of `len` bytes in the loop of `vita49_thread`. -/
def receive (opt : Options) (alloc : Bool) (len : Nat) (r : Receiver) : Reads Receiver := do
  match ← receiveContext opt len r.settings with
  | some settings => return { r with settings }
  | none =>
    match ← vrtParseHeader len with
    | none => return { r with skippedPkts := r.skippedPkts + 1 }
    | some (payloadOff, payloadBytes) =>
      let r ← sequenceCheck r
      match ← convert r.settings.iqFormat alloc payloadOff payloadBytes with
      | some s => return { r with pushed := r.pushed ++ [s] }
      | none => return r

/-! ## The layout of a datagram -/

section
variable (mem : Nat → Byte)

def word (p : Nat) : BitVec 32 := mem p ++ mem (p + 1) ++ mem (p + 2) ++ mem (p + 3)

variable (len : Nat)

def Wrapped : Prop := 12 ≤ len ∧ word mem 0 = vrlMagic

instance : Decidable (Wrapped mem len) := inferInstanceAs (Decidable (_ ∧ _))

def vrtStart : Nat := if Wrapped mem len then 8 else 0

def vrtStop : Nat := if Wrapped mem len then len - 4 else len

def vrtHead : BitVec 32 := word mem (vrtStart mem len)

end

/-- The header, the stream id of type 1, the class id and the two timestamps. -/
def headerWords (w0 : BitVec 32) : Nat :=
  1 + (if pktType w0 = vrtTypeSignalData then 1 else 0) + (if classId w0 ≠ 0 then 2 else 0) +
    (if tsi w0 ≠ 0 then 1 else 0) + (if tsf w0 ≠ 0 then 2 else 0)

def trailerWords (w0 : BitVec 32) : Nat := if trailerBit w0 ≠ 0 then 1 else 0

/-- The packet is whole, and holds a payload between its header words and its trailer. -/
structure Consistent (mem : Nat → Byte) (len : Nat) : Prop where
  header : 4 ≤ len
  signalData : pktType (vrtHead mem len) = vrtTypeSignalDataNoSid ∨
    pktType (vrtHead mem len) = vrtTypeSignalData
  whole : vrtStart mem len + pktSizeW (vrtHead mem len) * 4 ≤ vrtStop mem len
  payload : headerWords (vrtHead mem len) + trailerWords (vrtHead mem len) < pktSizeW (vrtHead mem len)

/-! ## Proofs: signal data -/

section
variable {mem : Nat → Byte} {ok : Nat → Prop} {len : Nat}

theorem cell_spec {p : Nat} (hok : ok p) : Loads.Ensures mem ok (Loads.cell p) (· = mem p) :=
  .cell hok rfl

theorem be32_spec {p : Nat} (hok : ∀ j, p ≤ j → j < p + 4 → ok j) :
    Loads.Ensures mem ok (be32 p) (· = word mem p) := by
  refine .bind (cell_spec (hok p (by omega) (by omega))) ?_
  rintro _ rfl
  refine .bind (cell_spec (hok (p + 1) (by omega) (by omega))) ?_
  rintro _ rfl
  refine .bind (cell_spec (hok (p + 2) (by omega) (by omega))) ?_
  rintro _ rfl
  refine .bind (cell_spec (hok (p + 3) (by omega) (by omega))) ?_
  rintro _ rfl
  exact .pure rfl

theorem vrlStrip_spec (mem : Nat → Byte) (len : Nat) :
    Loads.Ensures mem (· < len) (vrlStrip len) (· = (vrtStart mem len, vrtStop mem len)) := by
  refine .ite (fun hlen => ?_) (fun hlen => ?_)
  · refine .bind (be32_spec fun j _ hj => by omega) ?_
    rintro _ rfl
    refine .ite (fun hmagic => .pure ?_) (fun hmagic => .pure ?_)
    · have hwrapped : Wrapped mem len := ⟨hlen, hmagic⟩
      simp [vrtStart, vrtStop, hwrapped]
    · have hbare : ¬Wrapped mem len := fun h => hmagic h.2
      simp [vrtStart, vrtStop, hbare]
  · have hbare : ¬Wrapped mem len := fun h => hlen h.1
    exact .pure (by simp [vrtStart, vrtStop, hbare])

theorem vrtStart_add_four_le (mem : Nat → Byte) (hlen : 4 ≤ len) : vrtStart mem len + 4 ≤ len := by
  unfold vrtStart
  split
  next hwrapped => exact hwrapped.1
  next => omega

theorem vrtStop_le (mem : Nat → Byte) (len : Nat) : vrtStop mem len ≤ len := by
  unfold vrtStop
  split <;> omega

/-- **Header.** Nothing behind the datagram is read; the packet is accepted exactly when its sizes
are consistent. -/
theorem vrtParseHeader_spec (mem : Nat → Byte) (len : Nat) :
    Loads.Ensures mem (· < len) (vrtParseHeader len) fun r => ∀ off n, r = some (off, n) ↔
      Consistent mem len ∧
        off = vrtStart mem len + headerWords (vrtHead mem len) * 4 ∧
        off + n + trailerWords (vrtHead mem len) * 4 =
          vrtStart mem len + pktSizeW (vrtHead mem len) * 4 := by
  refine .ite (fun hshort => .pure fun off n => ?_) (fun hlong => ?_)
  · exact ⟨nofun, fun h => absurd h.1.header (by omega)⟩
  refine .bind (vrlStrip_spec mem len) ?_
  rintro _ rfl
  have hroom := vrtStart_add_four_le mem (by omega : 4 ≤ len)
  have hhead : Loads.Ensures mem (· < len) (be32 (vrtStart mem len)) (· = vrtHead mem len) :=
    be32_spec fun j _ hj => by omega
  refine .bind hhead ?_
  rintro _ rfl
  refine .ite (fun htype => .pure fun off n => ?_) (fun htype => ?_)
  · exact ⟨nofun, fun h => absurd h.1.signalData (not_or.mpr htype)⟩
  refine .ite (fun hsize => .pure fun off n => ?_) (fun hsize => ?_)
  · refine ⟨nofun, fun h => ?_⟩
    have hwhole := h.1.whole
    have hpayload := h.1.payload
    omega
  refine .ite (fun hempty => .pure fun off n => ?_) (fun hempty => .pure fun off n => ?_)
  · exact ⟨nofun, fun h => absurd h.1.payload (Nat.not_lt.mpr hempty)⟩
  · have hsizes : headerWords (vrtHead mem len) + trailerWords (vrtHead mem len) <
        pktSizeW (vrtHead mem len) := Nat.not_le.mp hempty
    have hconsistent : Consistent mem len :=
      ⟨by omega, by tauto, by omega, hsizes⟩
    show some (vrtStart mem len + headerWords (vrtHead mem len) * 4,
      (pktSizeW (vrtHead mem len) - headerWords (vrtHead mem len) -
        trailerWords (vrtHead mem len)) * 4) = some (off, n) ↔ _
    rw [Option.some.injEq, Prod.mk.injEq]
    constructor
    · rintro ⟨rfl, rfl⟩
      exact ⟨hconsistent, rfl, by omega⟩
    · rintro ⟨-, rfl, hn⟩
      exact ⟨rfl, by omega⟩

example : (vrtParseHeader 16).run (fun i => if i = 0 then 0x14 else if i = 3 then 4 else 0) =
    some (8, 4) := by
  decide

/-! ## Proofs: context -/

theorem readBe64_spec {p : Nat} (hok : ∀ j, p ≤ j → j < p + 8 → ok j) :
    Loads.Ensures mem ok (readBe64 p) (· = word mem p ++ word mem (p + 4)) := by
  refine .bind (be32_spec fun j hj hlt => hok j hj (by omega)) ?_
  rintro _ rfl
  refine .bind (be32_spec fun j hj hlt => hok j (by omega) (by omega)) ?_
  rintro _ rfl
  exact .pure rfl

def wordsUsed (bit : BitVec 32) : Nat :=
  if bit = cifRfRefFreq ∨ bit = cifSampleRate then 2 else if bit = cifDataFormat then 1 else 0

theorem wordsUsed_le : ∀ field ∈ cifFields, wordsUsed field.1 ≤ field.2 := by
  decide

theorem readField_spec {p : Nat} (bit : BitVec 32) (ctx : Context)
    (hok : ∀ j, p ≤ j → j < p + 4 * wordsUsed bit → ok j) :
    Loads.Ensures mem ok (readField p bit ctx) fun _ => True := by
  refine .ite (fun hrf => ?_) (fun hrf => .ite (fun hsr => ?_) (fun hsr => .ite (fun hdf => ?_) ?_))
  · have hwords : wordsUsed bit = 2 := if_pos (.inl hrf)
    exact .bind (readBe64_spec fun j hj hlt => hok j hj (by omega)) fun _ _ => .pure trivial
  · have hwords : wordsUsed bit = 2 := if_pos (.inr hsr)
    exact .bind (readBe64_spec fun j hj hlt => hok j hj (by omega)) fun _ _ => .pure trivial
  · have hwords : wordsUsed bit = 1 := (if_neg (not_or.mpr ⟨hrf, hsr⟩)).trans (if_pos hdf)
    refine .bind (be32_spec fun j hj hlt => hok j hj (by omega)) fun fw _ => ?_
    cases payloadFormatToIq fw with
    | some f => exact .pure trivial
    | none => exact .pure trivial
  · exact fun _ => .pure trivial

theorem walkFields_spec {vrt size : Nat} (cif0 : BitVec 32)
    (hok : ∀ j, vrt ≤ j → j < vrt + 4 * size → ok j) (fields : List (BitVec 32 × Nat))
    (hused : ∀ field ∈ fields, wordsUsed field.1 ≤ field.2) (offW : Nat) (ctx : Context) :
    Loads.Ensures mem ok (walkFields vrt size cif0 fields offW ctx) fun _ => True := by
  induction fields generalizing offW ctx with
  | nil => exact .pure trivial
  | cons field fields ih =>
    have hfield := hused field (List.mem_cons_self ..)
    have hrest := fun f hf => hused f (List.mem_cons_of_mem _ hf)
    refine .ite (fun _ => ih hrest offW ctx) (fun _ => .ite (fun _ => .pure trivial) fun hfits => ?_)
    refine .bind (readField_spec field.1 ctx fun j hj hlt => ?_) fun ctx' _ => ih hrest _ ctx'
    exact hok j (by omega) (by omega)

/-- Its own words, of which the first one declares how many there are. -/
def InPacket (mem : Nat → Byte) (vrt vrtLen i : Nat) : Prop :=
  vrt ≤ i ∧ i < vrt + vrtLen ∧ i < vrt + 4 * max 1 (pktSizeW (word mem vrt))

theorem readContext_spec (mem : Nat → Byte) (vrt vrtLen : Nat) :
    Loads.Ensures mem (InPacket mem vrt vrtLen) (readContext vrt vrtLen) fun _ => True := by
  refine .ite (fun _ => .pure trivial) (fun hlen => ?_)
  refine .bind (be32_spec fun j hj hlt => ⟨hj, by omega, by omega⟩) ?_
  rintro _ rfl
  refine .ite (fun _ => .pure trivial) (fun hsize => .ite (fun _ => .pure trivial) fun hoff => ?_)
  have hok : ∀ j, vrt ≤ j → j < vrt + 4 * pktSizeW (word mem vrt) → InPacket mem vrt vrtLen j :=
    fun j hj hlt => ⟨hj, by omega, by omega⟩
  refine .bind (be32_spec fun j hj hlt => hok j (by omega) (by omega)) fun cif0 _ => ?_
  exact walkFields_spec cif0 hok cifFields wordsUsed_le _ _

/-- **Context.** Only words of the packet are read, below its declared size. -/
theorem vrtHandleContext_spec (mem : Nat → Byte) (opt : Options) (vrt vrtLen : Nat) (s : Settings) :
    Loads.Ensures mem (InPacket mem vrt vrtLen) (vrtHandleContext opt vrt vrtLen s) fun _ => True := by
  refine .bind (readContext_spec mem vrt vrtLen) fun ctx _ => ?_
  cases ctx with
  | some ctx => exact .pure trivial
  | none => exact .pure trivial

/-! ## Proofs: the receive loop -/

theorem receiveContext_spec (mem : Nat → Byte) (opt : Options) (len : Nat) (s : Settings) :
    Loads.Ensures mem (· < len) (receiveContext opt len s) fun _ => True := by
  refine .bind (vrlStrip_spec mem len) ?_
  rintro _ rfl
  have hstop := vrtStop_le mem len
  refine .ite (fun hroom => ?_) (fun _ => .pure trivial)
  refine .bind (be32_spec fun j _ hj => by omega) fun cw0 _ => .ite (fun _ => ?_) fun _ => .pure trivial
  refine .bind ((vrtHandleContext_spec mem opt _ _ s).mono (fun i hi => ?_) fun _ h => h)
    fun _ _ => .pure trivial
  have hin := hi.2.1
  omega

/-- Without the length check, a short datagram that begins with the wrapper's mark could be taken
for a wrapped one, but it is no signal-data packet. -/
theorem vrtStart_of_consistent (hc : Consistent mem len) :
    vrtStart mem len = if word mem 0 = vrlMagic then 8 else 0 := by
  unfold vrtStart
  by_cases hmagic : word mem 0 = vrlMagic
  · rw [if_pos hmagic, if_pos]
    by_contra hbare
    have htype := hc.signalData
    rw [show vrtHead mem len = vrlMagic by rw [vrtHead, vrtStart, if_neg hbare, hmagic]] at htype
    revert htype
    decide
  · rw [if_neg hmagic, if_neg fun hwrapped => hmagic hwrapped.2]

theorem sequenceCheck_spec (hc : Consistent mem len) (r : Receiver) :
    Loads.Ensures mem (· < len) (sequenceCheck r) fun r' =>
      r'.lastCount = some (pktCount (vrtHead mem len)) ∧ r'.settings = r.settings := by
  have hlen := hc.header
  refine .bind (be32_spec fun j _ hj => by omega) ?_
  rintro _ rfl
  have hroom := vrtStart_add_four_le mem hlen
  rw [← vrtStart_of_consistent hc]
  have hhead : Loads.Ensures mem (· < len) (be32 (vrtStart mem len)) (· = vrtHead mem len) :=
    be32_spec fun j _ hj => by omega
  refine .bind hhead ?_
  rintro _ rfl
  exact .pure ⟨rfl, rfl⟩

theorem highByte_spec {p : Nat} (hok : ∀ j, p ≤ j → j < p + 2 → ok j) :
    Loads.Ensures mem ok (highByte p) (· = mem p) := by
  refine .bind (cell_spec (hok p (by omega) (by omega))) ?_
  rintro _ rfl
  exact .bind (cell_spec (hok (p + 1) (by omega) (by omega))) fun _ _ => .pure rfl

theorem convert_spec (fmt : IqFormat) (alloc : Bool) {payload bytes : Nat}
    (hok : ∀ j, payload ≤ j → j < payload + bytes → ok j) :
    Loads.Ensures mem ok (convert fmt alloc payload bytes) fun _ => True := by
  cases fmt with
  | cf32 =>
    refine .ite (fun _ => .pure trivial) fun _ => ?_
    refine .bind (.times (fun i => word mem (payload + 4 * i)) fun i _ hi => ?_) fun _ _ => .pure trivial
    exact be32_spec fun j hj hlt => hok j (by omega) (by omega)
  | ci16 =>
    refine .ite (fun _ => .pure trivial) fun _ => ?_
    refine .bind (.times (fun i => mem (payload + 2 * i)) fun i _ hi => ?_) fun _ _ => .pure trivial
    exact highByte_spec fun j hj hlt => hok j (by omega) (by omega)
  | ci8 =>
    refine .ite (fun _ => .pure trivial) fun _ => ?_
    refine .bind (.times (fun i => mem (payload + i)) fun i _ hi => ?_) fun _ _ => .pure trivial
    exact cell_spec (hok _ (by omega) (by omega))

/-- **Loop.** Whatever a datagram holds, nothing behind it is read. -/
theorem receive_inside (mem : Nat → Byte) (opt : Options) (alloc : Bool) (len : Nat) (r : Receiver) :
    Loads.Ensures mem (· < len) (receive opt alloc len r) fun _ => True := by
  refine .bind (receiveContext_spec mem opt len r.settings) fun ctx _ => ?_
  cases ctx with
  | some settings => exact .pure trivial
  | none =>
    refine .bind (vrtParseHeader_spec mem len) fun parsed hparsed => ?_
    cases parsed with
    | none => exact .pure trivial
    | some range =>
      obtain ⟨off, n⟩ := range
      obtain ⟨hc, hoff, hend⟩ := (hparsed off n).mp rfl
      refine .bind (sequenceCheck_spec hc r) fun r' _ => .bind (convert_spec _ alloc ?_) fun s _ => ?_
      · intro j _ hlt
        have hwhole := hc.whole
        have hstop := vrtStop_le mem len
        omega
      · cases s with
        | some s => exact .pure trivial
        | none => exact .pure trivial

theorem receive_congr {mem mem' : Nat → Byte} {len : Nat} (hsame : ∀ i < len, mem' i = mem i)
    (opt : Options) (alloc : Bool) (r : Receiver) :
    (receive opt alloc len r).run mem' = (receive opt alloc len r).run mem :=
  (Loads.run_congr _ fun i hi => hsame i ((receive_inside mem opt alloc len r).1 i hi)).1

end

/-! ## Inside the datagram -/

/-- **Inside the datagram.** A header is accepted exactly when its sizes are consistent; its payload
then lies in the packet, behind every header word and in front of the trailers; and a context packet
is read below its declared size only. -/
theorem parsing_inside (mem : Nat → Byte) (len : Nat) :
    (((vrtParseHeader len).run mem).isSome ↔ Consistent mem len) ∧
      (∀ off n, (vrtParseHeader len).run mem = some (off, n) →
        vrtStart mem len + headerWords (vrtHead mem len) * 4 ≤ off ∧
          off + n + trailerWords (vrtHead mem len) * 4 ≤
            vrtStart mem len + pktSizeW (vrtHead mem len) * 4 ∧
          vrtStart mem len + pktSizeW (vrtHead mem len) * 4 ≤ vrtStop mem len) ∧
      (∀ i ∈ (vrtParseHeader len).touched mem, i < len) ∧
      ∀ opt vrt vrtLen s, ∀ i ∈ (vrtHandleContext opt vrt vrtLen s).touched mem,
        InPacket mem vrt vrtLen i := by
  obtain ⟨hreads, hparse⟩ := vrtParseHeader_spec mem len
  refine ⟨⟨fun hsome => ?_, fun hc => ?_⟩, fun off n hrun => ?_, hreads, fun opt vrt vrtLen s =>
    (vrtHandleContext_spec mem opt vrt vrtLen s).1⟩
  · obtain ⟨⟨off, n⟩, hrun⟩ := Option.isSome_iff_exists.mp hsome
    exact ((hparse off n).mp hrun).1
  · have hpayload := hc.payload
    have hrun := (hparse _ ((pktSizeW (vrtHead mem len) - headerWords (vrtHead mem len) -
      trailerWords (vrtHead mem len)) * 4)).mpr ⟨hc, rfl, by omega⟩
    rw [hrun]
    rfl
  · obtain ⟨hc, hoff, hend⟩ := (hparse off n).mp hrun
    exact ⟨hoff.ge, hend.le, hc.whole⟩

end MeshcoreSniffer.Sdr.Vita49
