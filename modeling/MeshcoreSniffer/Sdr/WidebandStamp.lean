import MeshcoreSniffer.Lib.Runs
import MeshcoreSniffer.Lora.Focused
import MeshcoreSniffer.Sdr.Polyphase
import MeshcoreSniffer.Sdr.Sinks

/-!
# The channelizer and the time stamps of its channels

`channelizer.c` keeps one filterbank per bandwidth and oversampling factor. `on_channel_baseband`
announces where a buffer lies in the radio's sample count: an anchor and a step per sample, which is
the number of bins.
-/

namespace MeshcoreSniffer.Sdr

open Lib Lora List Option

variable {ν R : Type*} [CommRing R]

/-! ## Model -/

def pfbTapsPerBr : Nat := 12

def maxPfbGroups : Nat := 8

def channelizerMaxChannels : Nat := 1024

/-- The filter design and the pre-shift oscillator of a filterbank. -/
structure Design (ν R : Type*) where
  prototype : (m l : Nat) → List R
  oscillator : (preShiftHz : Int) → ν

structure PfbGroup (ν R : Type*) where
  bwHz : Nat
  osFactor : Nat
  pfb : Pfb ν R

structure ChannelCfg where
  fHz : Nat
  bwHz : Int
  osFactor : Int

structure ChanState where
  cfg : ChannelCfg
  groupIdx : Nat

structure Channelizer (ν R : Type*) where
  fCenter : Nat
  sampRate : Nat
  groups : List (PfbGroup ν R)
  channels : List ChanState

def channelizerCreate (fCenter sampRate : Nat) : Channelizer ν R where
  fCenter := fCenter
  sampRate := sampRate
  groups := []
  channels := []

def findOrCreateGroup (design : Design ν R) (c : Channelizer ν R) (bwHz osFactor firstChannelHz : Nat) :
    Option (Nat × Channelizer ν R) :=
  match c.groups.findIdx? fun g => g.bwHz = bwHz ∧ g.osFactor = osFactor with
  | some g => some (g, c)
  | none =>
    if maxPfbGroups ≤ c.groups.length then none
    else if c.sampRate % bwHz ≠ 0 then none
    else
      let m := c.sampRate / bwHz
      if m < 1 ∨ 2 ^ 31 ≤ m then none
      else
        let preShift := (firstChannelHz : Int) - c.fCenter
        (pfbCreateOs (design.prototype m pfbTapsPerBr) m pfbTapsPerBr osFactor
          (design.oscillator preShift)).map fun pfb =>
            (c.groups.length, { c with groups := c.groups ++ [⟨bwHz, osFactor, pfb⟩] })

def ChannelCfg.os (cfg : ChannelCfg) : Nat := if 0 < cfg.osFactor then cfg.osFactor.toNat else 1

/-- A group made for a channel that then lies outside the window stays. -/
def channelizerAddChannel (design : Design ν R) (c : Channelizer ν R) (cfg : ChannelCfg) :
    Channelizer ν R × Option Nat :=
  if channelizerMaxChannels ≤ c.channels.length then (c, none)
  else if cfg.bwHz ≤ 0 ∨ c.sampRate = 0 then (c, none)
  else if c.sampRate < cfg.bwHz.toNat then (c, none)
  else
    match findOrCreateGroup design c cfg.bwHz.toNat cfg.os cfg.fHz with
    | none => (c, none)
    | some (gidx, c) =>
      if 2 * cfg.fHz + c.sampRate < 2 * c.fCenter ∨ 2 * c.fCenter + c.sampRate < 2 * cfg.fHz then
        (c, none)
      else ({ c with channels := c.channels ++ [⟨cfg, gidx⟩] }, some c.channels.length)

def osPolicyAuto (sf bwHz : Nat) : Nat :=
  if sf = 7 ∧ bwHz = 250000 then 2
  else if sf = 7 ∧ bwHz = 500000 then 2
  else if sf = 9 ∧ bwHz = 250000 then 4
  else if sf = 11 ∧ bwHz = 500000 then 2
  else 1

/-- `MESHTASTIC_OS_POLICY`, `MESHTASTIC_PROTOTYPE_OS` and `MESHTASTIC_PROTOTYPE_OS_MAXSF`. -/
structure OsSettings where
  policyAuto : Bool
  prototypeOs : Option Int
  prototypeOsMaxSf : Option Int

def roundedRatio (sampRate : Nat) (bwHz : Int) : Nat := ⌊(sampRate : ℚ) / bwHz + 1 / 2⌋.toNat

/-- The oversampling factor `instantiate_channel` chooses. -/
def instantiateOs (env : OsSettings) (sampRate bwHz sf : Nat) : Nat :=
  let os := if env.policyAuto then osPolicyAuto sf bwHz else 1
  let os := match env.prototypeOs with
    | some v => if 1 ≤ v ∧ v ≤ 4 then v.toNat else os
    | none => os
  let os := match env.prototypeOsMaxSf with
    | some maxSf => if maxSf < sf then 1 else os
    | none => os
  let m := roundedRatio sampRate bwHz
  if 1 < os ∧ (m = 0 ∨ m % os ≠ 0) then 1 else os

def instantiateChannel (design : Design ν R) (env : OsSettings) (c : Channelizer ν R)
    (fHz bwHz sf : Nat) : Channelizer ν R × Option Nat :=
  let band := (c.sampRate : Int) - bwHz
  if band < 0 ∨ band < 2 * |(fHz : Int) - c.fCenter| then (c, none)
  else channelizerAddChannel design c ⟨fHz, bwHz, instantiateOs env c.sampRate bwHz sf⟩

def stepPerSample (sampRate : Nat) (bwHz : Int) : BitVec 32 := .ofNat 32 (roundedRatio sampRate bwHz)

def chunkAnchor (now : BitVec 64) (n : Nat) (step : BitVec 32) : BitVec 64 :=
  let span := BitVec.ofNat 64 n * step.setWidth 64
  if span < now then now - span else 0

/-- The cursor `on_channel_baseband` announces for a buffer of `n` samples. -/
def announce (sampRate : Nat) (bwHz : Int) (now : BitVec 64) (n : Nat) (d : Decoder) : Decoder :=
  if 0 < bwHz then
    let step := stepPerSample sampRate bwHz
    setStreamCursor d (chunkAnchor now n step) step
  else d

def onChannelBaseband (sampRate : Nat) (bwHz : Int) (now : BitVec 64) (d : Decoder)
    (samples : List Obs) : Decoder × List Event :=
  Mealy.run feedSample (announce sampRate bwHz now samples.length d) samples

/-- What a lock at the `n`-th sample of a buffer is stamped with. -/
def attributed (sampRate : Nat) (bwHz : Int) (now : BitVec 64) (d : Decoder) (samples : List Obs)
    (n : Nat) : BitVec 64 :=
  (Mealy.run feedSample (announce sampRate bwHz now samples.length d)
    (samples.take n)).1.lockSampleIdx

/-! ## The filterbank of a channel -/

variable {os bwHz sampRate : Nat} {c : Channelizer ν R} (design : Design ν R)

theorem pfbCreateOs_eq (h : List R) {m l : Nat} (nco : ν) {p : Pfb ν R} (hos : 1 ≤ os)
    (hp : pfbCreateOs h m l os nco = some p) : os ∣ m ∧ p = .fresh h m l os nco := by
  have hset : (if os < 1 then 1 else os) = os := if_neg (Nat.not_lt.mpr hos)
  simp only [pfbCreateOs, hset] at hp
  split at hp
  · cases hp
  next hgrid =>
    obtain ⟨q, hq, rfl⟩ := map_eq_some_iff.mp hp
    have hfresh : q = .fresh h m l 1 nco := by
      unfold pfbCreate at hq
      split at hq
      · cases hq
      · exact (some.inj hq).symm
    have hdvd : os ∣ m := by
      by_cases hone : os = 1
      · exact hone ▸ Nat.one_dvd m
      · have hover : 1 < os := by omega
        exact Nat.dvd_of_mod_eq_zero (not_not.mp fun hne => hgrid ⟨hover, hne⟩)
    refine ⟨hdvd, ?_⟩
    split
    next hone => rw [hfresh, hone]
    next => rw [hfresh]; rfl

/-- The group of a bandwidth and a factor, with the filterbank these ask for. -/
structure PfbGroup.Made (sampRate : Nat) (g : PfbGroup ν R) : Prop where
  bw_pos : 0 < g.bwHz
  bw_dvd : g.bwHz ∣ sampRate
  bins_pos : 0 < sampRate / g.bwHz
  os_pos : 1 ≤ g.osFactor
  os_dvd : g.osFactor ∣ sampRate / g.bwHz
  pfb_eq : ∃ h nco, g.pfb = .fresh h (sampRate / g.bwHz) pfbTapsPerBr g.osFactor nco

structure Channelizer.WellMade (c : Channelizer ν R) : Prop where
  groups : ∀ g ∈ c.groups, g.Made c.sampRate
  channels : ∀ ch ∈ c.channels, ∃ g, c.groups[ch.groupIdx]? = some g ∧
    (g.bwHz : Int) = ch.cfg.bwHz ∧ g.osFactor = ch.cfg.os

theorem ChannelCfg.os_pos (cfg : ChannelCfg) : 1 ≤ cfg.os := by
  unfold ChannelCfg.os
  split <;> omega

theorem findOrCreateGroup_spec {c' : Channelizer ν R} {first gidx : Nat} (hbw : 0 < bwHz)
    (hos : 1 ≤ os) (h : findOrCreateGroup design c bwHz os first = some (gidx, c')) :
    (∃ made, c' = { c with groups := c.groups ++ made } ∧ ∀ g ∈ made, g.Made c.sampRate) ∧
      ∃ g, c'.groups[gidx]? = some g ∧ g.bwHz = bwHz ∧ g.osFactor = os := by
  unfold findOrCreateGroup at h
  split at h
  next i hfind =>
    obtain ⟨rfl, rfl⟩ := Prod.mk.inj (some.inj h)
    obtain ⟨hi, hkey, -⟩ := findIdx?_eq_some_iff_getElem.mp hfind
    refine ⟨⟨[], ?_, fun g hg => absurd hg not_mem_nil⟩, c.groups[i], getElem?_eq_getElem hi, ?_⟩
    · rw [append_nil]
    · exact of_decide_eq_true hkey
  next hfind =>
    split at h
    · cases h
    split at h
    · cases h
    next hgrid =>
      dsimp only at h
      split at h
      · cases h
      next hbins =>
        obtain ⟨pfb, hpfb, heq⟩ := map_eq_some_iff.mp h
        obtain ⟨rfl, rfl⟩ := Prod.mk.inj heq
        obtain ⟨hdvd, hfresh⟩ := pfbCreateOs_eq _ _ hos hpfb
        refine ⟨⟨_, rfl, ?_⟩, _, getElem?_concat_length, rfl, rfl⟩
        intro g hg
        obtain rfl := mem_singleton.mp hg
        have hpos : 0 < c.sampRate / bwHz := by omega
        exact ⟨hbw, Nat.dvd_of_mod_eq_zero (not_not.mp hgrid), hpos, hos, hdvd, _, _, hfresh⟩

theorem wellMade_create (fCenter sampRate : Nat) :
    (channelizerCreate fCenter sampRate : Channelizer ν R).WellMade :=
  ⟨fun _ hg => absurd hg not_mem_nil, fun _ hch => absurd hch not_mem_nil⟩

theorem Channelizer.WellMade.grow (h : c.WellMade) {made : List (PfbGroup ν R)}
    (hmade : ∀ g ∈ made, g.Made c.sampRate) : ({ c with groups := c.groups ++ made }).WellMade where
  groups g hg := (mem_append.mp hg).elim (h.groups g) (hmade g)
  channels ch hch := by
    obtain ⟨g, hg, hkey⟩ := h.channels ch hch
    refine ⟨g, ?_, hkey⟩
    have hlt := (List.getElem?_eq_some_iff.mp hg).1
    exact (getElem?_append_left hlt).trans hg

theorem wellMade_add (h : c.WellMade) (cfg : ChannelCfg) :
    (channelizerAddChannel design c cfg).1.WellMade ∧
      (channelizerAddChannel design c cfg).1.sampRate = c.sampRate := by
  unfold channelizerAddChannel
  split
  · exact ⟨h, rfl⟩
  split
  · exact ⟨h, rfl⟩
  next hbw =>
    split
    · exact ⟨h, rfl⟩
    split
    · exact ⟨h, rfl⟩
    next gidx c' hfind =>
      obtain ⟨⟨made, rfl, hmade⟩, g, hg, hbwHz, hos⟩ :=
        findOrCreateGroup_spec design (by omega) cfg.os_pos hfind
      have hgrown := h.grow hmade
      split
      · exact ⟨hgrown, rfl⟩
      · refine ⟨⟨hgrown.groups, ?_⟩, rfl⟩
        intro ch hch
        rcases mem_append.mp hch with hold | hnew
        · exact hgrown.channels ch hold
        · obtain rfl := mem_singleton.mp hnew
          refine ⟨g, hg, ?_, hos⟩
          show (g.bwHz : Int) = cfg.bwHz
          omega

def Channelizer.after (design : Design ν R) (fCenter sampRate : Nat) (cfgs : List ChannelCfg) :
    Channelizer ν R :=
  Runs.run (fun c cfg => (channelizerAddChannel design c cfg).1) (channelizerCreate fCenter sampRate)
    cfgs

theorem wellMade_after (fCenter sampRate : Nat) (cfgs : List ChannelCfg) :
    (Channelizer.after design fCenter sampRate cfgs).WellMade ∧
      (Channelizer.after design fCenter sampRate cfgs).sampRate = sampRate := by
  refine Runs.run_invariant (I := fun c : Channelizer ν R => c.WellMade ∧ c.sampRate = sampRate) ?_
    ⟨wellMade_create fCenter sampRate, rfl⟩ cfgs
  intro c cfg hc
  obtain ⟨hmade, hrate⟩ := wellMade_add design hc.1 cfg
  exact ⟨hmade, hrate.trans hc.2⟩

/-! ## The stamps -/

theorem roundedRatio_eq (hbw : 0 < bwHz) (hdvd : bwHz ∣ sampRate) :
    roundedRatio sampRate bwHz = sampRate / bwHz := by
  obtain ⟨m, rfl⟩ := hdvd
  have hne : (bwHz : ℚ) ≠ 0 := Nat.cast_ne_zero.mpr hbw.ne'
  have hratio : (((bwHz * m : Nat) : ℚ) / ((bwHz : Int) : ℚ)) = m := by
    rw [Int.cast_natCast, Nat.cast_mul, mul_div_cancel_left₀ _ hne]
  have hhalf : ⌊(1 / 2 : ℚ)⌋ = 0 := by norm_num
  rw [roundedRatio, hratio, Int.floor_natCast_add, hhalf, add_zero, Int.toNat_natCast,
    Nat.mul_div_cancel_left m hbw]

theorem cursor_feed (d : Decoder) (samples : List Obs) :
    (Mealy.run feedSample d samples).1.sampler.cursor =
      (d.sampler.streamChunkAnchor, d.sampler.streamStepPerSample,
        d.sampler.samplesInChunk + BitVec.ofNat 32 samples.length) := by
  induction samples generalizing d with
  | nil => exact congrArg (fun count => (_, _, count)) (BitVec.add_zero _).symm
  | cons o samples ih =>
    have hone := (counted_feedSample d o).cursor
    simp only [Sampler.cursor, Prod.mk.injEq] at hone
    obtain ⟨hanchor, hstep, hcount⟩ := hone
    rw [Mealy.run, ih, hanchor, hstep, hcount, length_cons, BitVec.ofNat_add, BitVec.add_assoc,
      BitVec.add_comm (BitVec.ofNat 32 samples.length)]
    rfl

theorem stamp_attributed (sampRate : Nat) (bwHz : Int) (now : BitVec 64) (d : Decoder)
    (before after : List Obs) (o : Obs) :
    let samples := before ++ o :: after
    let fed := (Mealy.run feedSample (announce sampRate bwHz now samples.length d) before).1
    locks (feedSample fed o).2 ≠ 0 →
      (feedSample fed o).1.frameMeta.preambleLockSampleIdx =
        attributed sampRate bwHz now d samples (before.length + 1) := by
  intro samples fed hlock
  have hcounted := counted_feedSample fed o
  have hcursor : fed.taken.sampler.cursor = (feedSample fed o).1.sampler.cursor :=
    hcounted.cursor.symm
  have htake : samples.take (before.length + 1) = before ++ [o] := by
    simp [samples, take_append]
  rw [hcounted.stamp hlock, lockSampleIdx_of_cursor hcursor, attributed, htake, Mealy.run_append]
  rfl

theorem attributed_eq (hbw : 0 < bwHz) (hdvd : bwHz ∣ sampRate) (hrate : sampRate < 2 ^ 32)
    (now : BitVec 64) (d : Decoder) {samples : List Obs} {n : Nat} (hn : n ≤ samples.length)
    (hfit : n < 2 ^ 32) : attributed sampRate bwHz now d samples n =
      chunkAnchor now samples.length (stepPerSample sampRate bwHz) +
        BitVec.ofNat 64 (n * (sampRate / bwHz)) := by
  have hstep : stepPerSample sampRate bwHz = BitVec.ofNat 32 (sampRate / bwHz) := by
    rw [stepPerSample, roundedRatio_eq hbw hdvd]
  have hbins : sampRate / bwHz < 2 ^ 32 := (Nat.div_le_self _ _).trans_lt hrate
  have hcursor := cursor_feed (announce sampRate bwHz now samples.length d) (samples.take n)
  rw [announce, if_pos (Int.natCast_pos.mpr hbw), length_take_of_le hn] at hcursor
  simp only [Sampler.cursor, Prod.mk.injEq, setStreamCursor, zero_add] at hcursor
  obtain ⟨hanchor, hsame, hcount⟩ := hcursor
  rw [attributed, announce, if_pos (Int.natCast_pos.mpr hbw)]
  rw [Decoder.lockSampleIdx, setStreamCursor, hanchor, hsame, hcount, hstep]
  congr 1
  apply BitVec.eq_of_toNat_eq
  simp only [BitVec.toNat_mul, BitVec.toNat_setWidth, BitVec.toNat_ofNat]
  rw [Nat.mod_eq_of_lt hfit, Nat.mod_eq_of_lt hbins, ← Nat.mul_mod]

/-- **Wideband stamps.** The index attributed to every sample of a buffer is the anchor plus its
number times the samples its filterbank consumes per output, exactly when the channel is not
oversampled. -/
theorem wideband_stamp_iff (design : Design ν R) (fCenter : Nat) {sampRate : Nat}
    (hrate : sampRate < 2 ^ 32) (cfgs : List ChannelCfg) {ch : ChanState} {g : PfbGroup ν R}
    (hch : ch ∈ (Channelizer.after design fCenter sampRate cfgs).channels)
    (hg : (Channelizer.after design fCenter sampRate cfgs).groups[ch.groupIdx]? = some g)
    (now : BitVec 64) (d : Decoder) {samples : List Obs}
    (hbuf : samples.length ≤ Sinks.pfbOutbufSamples) :
    (∀ n ≤ samples.length, attributed sampRate ch.cfg.bwHz now d samples n =
        chunkAnchor now samples.length (stepPerSample sampRate ch.cfg.bwHz) +
          BitVec.ofNat 64 (n * g.pfb.bank.hop)) ↔
      ch.cfg.os = 1 ∨ samples = [] := by
  obtain ⟨hmade, hsame⟩ := wellMade_after design fCenter sampRate cfgs
  obtain ⟨g', hg', hbw, hos⟩ := hmade.channels ch hch
  obtain rfl : g = g' := some.inj (hg.symm.trans hg')
  have hgroup := hmade.groups g (mem_of_getElem? hg)
  rw [hsame] at hgroup
  obtain ⟨h, nco, hpfb⟩ := hgroup.pfb_eq
  have hhop : g.pfb.bank.hop = sampRate / g.bwHz / ch.cfg.os := by
    rw [hpfb, ← hos]
    rfl
  have hbins : 0 < sampRate / g.bwHz := hgroup.bins_pos
  have hle : sampRate / g.bwHz < 2 ^ 32 := (Nat.div_le_self _ _).trans_lt hrate
  rw [← hbw, hhop]
  have hindex := fun n (hn : n ≤ samples.length) =>
    attributed_eq hgroup.bw_pos hgroup.bw_dvd hrate now d hn
      (hn.trans_lt (hbuf.trans_lt (by decide)))
  generalize sampRate / g.bwHz = m at hbins hle hindex ⊢
  constructor
  · intro hright
    rcases samples.eq_nil_or_concat with hnil | ⟨_, _, hcons⟩
    · exact .inr hnil
    · -- the first sample already tells the step from the hop
      have hone : 1 ≤ samples.length := by simp [hcons]
      have hfirst := add_left_cancel ((hindex 1 hone).symm.trans (hright 1 hone))
      have hdiv := Nat.div_le_self m ch.cfg.os
      have heq := congrArg BitVec.toNat hfirst
      rw [BitVec.toNat_ofNat, BitVec.toNat_ofNat, Nat.one_mul, Nat.one_mul,
        Nat.mod_eq_of_lt (by omega), Nat.mod_eq_of_lt (by omega)] at heq
      have hnot : ¬1 < ch.cfg.os := fun hover => absurd heq (Nat.div_lt_self hbins hover).ne'
      exact .inl (le_antisymm (Nat.not_lt.mp hnot) ch.cfg.os_pos)
  · rintro (hone | rfl) n hn
    · rw [hindex n hn, hone, Nat.div_one]
    · obtain rfl : n = 0 := Nat.le_zero.mp hn
      rw [hindex 0 hn, Nat.zero_mul, Nat.zero_mul]

def plainDesign : Design Unit Int := ⟨fun _ _ => [], fun _ => ()⟩

def criticalCfg : ChannelCfg := ⟨915000000, 250000, 1⟩

def twoSamples : List Obs := List.replicate 2 (upchirpFrontend.observe [])

theorem roundedRatio_short : roundedRatio 2000000 250000 = 8 := by
  have h : roundedRatio 2000000 ((250000 : Nat) : Int) = 2000000 / 250000 :=
    roundedRatio_eq (by decide) (by decide)
  exact h

theorem wideband_stamp_iff_critical :
    criticalCfg.os = 1 ∧ ∀ n ≤ twoSamples.length, attributed 2000000 250000 1000 freshDecoder twoSamples n =
      chunkAnchor 1000 twoSamples.length (stepPerSample 2000000 250000) + BitVec.ofNat 64 (n * 8) := by
  have hch : (⟨criticalCfg, 0⟩ : ChanState) ∈
      (Channelizer.after plainDesign 915000000 2000000 [criticalCfg]).channels := mem_singleton_self _
  have hg : (Channelizer.after plainDesign 915000000 2000000 [criticalCfg]).groups[0]? =
      some ⟨250000, 1, .fresh [] 8 12 1 ()⟩ := rfl
  exact ⟨rfl, (wideband_stamp_iff plainDesign 915000000 (by decide) [criticalCfg] hch hg 1000
    freshDecoder (by decide)).mpr (.inl rfl)⟩

/-- **Oversampled stamps drift.** A channel of 250 kHz at spreading factor 7 is oversampled by two:
its filterbank emits every four samples, and the stamps advance by eight. -/
theorem oversampled_stamp_drifts :
    let c := (instantiateChannel plainDesign ⟨true, none, none⟩ (channelizerCreate 915000000 2000000)
      915000000 250000 7).1
    c.channels.map (fun ch => (ch.cfg.bwHz, ch.cfg.os)) = [(250000, 2)] ∧
      c.groups.map (fun g => g.pfb.bank.hop) = [4] ∧
      chunkAnchor 1000 twoSamples.length (stepPerSample 2000000 250000) = 984 ∧
      attributed 2000000 250000 1000 freshDecoder twoSamples 2 = 984 + BitVec.ofNat 64 (2 * 8) ∧
      attributed 2000000 250000 1000 freshDecoder twoSamples 2 ≠ 984 + BitVec.ofNat 64 (2 * 4) := by
  have hos : instantiateOs ⟨true, none, none⟩ 2000000 250000 7 = 2 := by
    simp only [instantiateOs, Nat.cast_ofNat, roundedRatio_short]
    rfl
  have hanchor : chunkAnchor 1000 twoSamples.length (stepPerSample 2000000 250000) = 984 := by
    rw [stepPerSample, roundedRatio_short]
    rfl
  have hindex : attributed 2000000 ((250000 : Nat) : Int) 1000 freshDecoder twoSamples 2 =
      chunkAnchor 1000 twoSamples.length (stepPerSample 2000000 ((250000 : Nat) : Int)) +
        BitVec.ofNat 64 (2 * (2000000 / 250000)) :=
    attributed_eq (by decide) (by decide) (by decide) 1000 freshDecoder (by decide) (by decide)
  rw [Nat.cast_ofNat, hanchor] at hindex
  intro c
  have hc : c = (channelizerAddChannel plainDesign (channelizerCreate 915000000 2000000)
      ⟨915000000, 250000, 2⟩).1 := by
    simp only [c, instantiateChannel, channelizerCreate, hos]
    rfl
  rw [hc]
  refine ⟨rfl, rfl, hanchor, hindex, ?_⟩
  rw [hindex]
  decide

end MeshcoreSniffer.Sdr
