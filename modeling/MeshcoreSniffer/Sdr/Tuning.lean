import MeshcoreSniffer.Sdr.WidebandStamp

/-!
# Where the channelizer tunes a channel

The bins of a group lie on a grid, with bin 0 on the first channel's frequency; a later channel
takes the nearest bin. `forget_addChannel` relates `addChannel` to the channelizer of
`Sdr.WidebandStamp`.
-/

namespace MeshcoreSniffer.Sdr.Tuning

open Lib List Option

/-! ## Model -/

/-- Those of `pfb_create_os`, and those of the channel and its sink. -/
structure Memory where
  pfb : Bool
  chan : Bool

structure Group where
  bwHz : Nat
  osFactor : Nat
  m : Nat
  bin0Freq : Nat
  deriving DecidableEq

structure Chan where
  cfg : ChannelCfg
  groupIdx : Nat
  bin : Nat

structure Tuner where
  fCenter : Nat
  sampRate : Nat
  groups : List Group
  channels : List Chan

def Tuner.create (fCenter sampRate : Nat) : Tuner := ⟨fCenter, sampRate, [], []⟩

def Group.Serves (g : Group) (bwHz osFactor : Nat) : Prop := g.bwHz = bwHz ∧ g.osFactor = osFactor

instance (g : Group) (bwHz osFactor : Nat) : Decidable (g.Serves bwHz osFactor) :=
  inferInstanceAs (Decidable (_ ∧ _))

def Tuner.newGroup (t : Tuner) (bwHz osFactor firstChannelHz : Nat) : Group :=
  ⟨bwHz, osFactor, t.sampRate / bwHz, firstChannelHz⟩

def findOrCreateGroup (mem : Memory) (t : Tuner) (bwHz osFactor firstChannelHz : Nat) :
    Option (Nat × Tuner) :=
  match t.groups.findIdx? fun g => g.Serves bwHz osFactor with
  | some gidx => some (gidx, t)
  | none =>
    if maxPfbGroups ≤ t.groups.length then none
    else if t.sampRate % bwHz ≠ 0 then none
    else
      let m := t.sampRate / bwHz
      if m < 1 ∨ 2 ^ 31 ≤ m then none
      -- `pfb_create_os`
      else if (1 < osFactor ∧ m % osFactor ≠ 0) ∨ mem.pfb = false then none
      else some (t.groups.length,
        { t with groups := t.groups ++ [t.newGroup bwHz osFactor firstChannelHz] })

def roundAway (q : ℚ) : Int := if 0 ≤ q then ⌊q + 1 / 2⌋ else -⌊-q + 1 / 2⌋

def Group.bin (g : Group) (cfg : ChannelCfg) : Nat :=
  let offset : Int := cfg.fHz - g.bin0Freq
  let bSigned := roundAway ((offset : ℚ) / cfg.bwHz)
  ((bSigned.tmod g.m + g.m).tmod g.m).toNat

def Tuner.Outside (t : Tuner) (cfg : ChannelCfg) : Prop :=
  2 * cfg.fHz + t.sampRate < 2 * t.fCenter ∨ 2 * t.fCenter + t.sampRate < 2 * cfg.fHz

instance (t : Tuner) (cfg : ChannelCfg) : Decidable (t.Outside cfg) :=
  inferInstanceAs (Decidable (_ ∨ _))

def Tuner.bind (mem : Memory) (t : Tuner) (cfg : ChannelCfg) (gidx : Nat) (g : Group) :
    Tuner × Option Nat :=
  if t.Outside cfg then (t, none)
  else if mem.chan = false then (t, none)
  else ({ t with channels := t.channels ++ [⟨cfg, gidx, g.bin cfg⟩] }, some t.channels.length)

def addChannel (mem : Memory) (t : Tuner) (cfg : ChannelCfg) : Tuner × Option Nat :=
  if channelizerMaxChannels ≤ t.channels.length then (t, none)
  else if cfg.bwHz ≤ 0 ∨ t.sampRate = 0 then (t, none)
  else if t.sampRate < cfg.bwHz.toNat then (t, none)
  else
    match findOrCreateGroup mem t cfg.bwHz.toNat cfg.os cfg.fHz with
    | none => (t, none)
    | some (gidx, t) =>
      match t.groups[gidx]? with
      | some g => t.bind mem cfg gidx g
      | none => (t, none)  -- never: the index is one of a group

/-! ## What a call does -/

def Tuner.CanMake (mem : Memory) (t : Tuner) (bwHz osFactor : Nat) : Prop :=
  (∀ g ∈ t.groups, ¬g.Serves bwHz osFactor) ∧ t.groups.length < maxPfbGroups ∧
    t.sampRate % bwHz = 0 ∧ 1 ≤ t.sampRate / bwHz ∧ t.sampRate / bwHz < 2 ^ 31 ∧
    (1 < osFactor → t.sampRate / bwHz % osFactor = 0) ∧ mem.pfb = true

def Tuner.MakesGroup (mem : Memory) (t : Tuner) (cfg : ChannelCfg) : Prop :=
  t.channels.length < channelizerMaxChannels ∧ 0 < cfg.bwHz ∧ t.sampRate ≠ 0 ∧
    cfg.bwHz.toNat ≤ t.sampRate ∧ t.CanMake mem cfg.bwHz.toNat cfg.os

def Tuner.grow (t : Tuner) (bwHz osFactor firstChannelHz : Nat) : Tuner :=
  { t with groups := t.groups ++ [t.newGroup bwHz osFactor firstChannelHz] }

theorem findOrCreateGroup_cases (mem : Memory) (t : Tuner) (bwHz os first : Nat) :
    (¬t.CanMake mem bwHz os ∧ findOrCreateGroup mem t bwHz os first = none) ∨
      (¬t.CanMake mem bwHz os ∧ ∃ gidx g, t.groups[gidx]? = some g ∧ g.Serves bwHz os ∧
        findOrCreateGroup mem t bwHz os first = some (gidx, t)) ∨
      (t.CanMake mem bwHz os ∧
        findOrCreateGroup mem t bwHz os first = some (t.groups.length, t.grow bwHz os first)) := by
  unfold findOrCreateGroup
  split
  next gidx hfind =>
    obtain ⟨hlt, hserves, -⟩ := findIdx?_eq_some_iff_getElem.mp hfind
    have hserves : t.groups[gidx].Serves bwHz os := of_decide_eq_true hserves
    refine .inr (.inl ⟨fun hmake => ?_, gidx, _, getElem?_eq_getElem hlt, hserves, rfl⟩)
    exact hmake.1 _ (getElem_mem hlt) hserves
  next hfind =>
    have hnone : ∀ g ∈ t.groups, ¬g.Serves bwHz os := by
      intro g hg
      simpa using findIdx?_eq_none_iff.mp hfind g hg
    split
    next hfull => exact .inl ⟨fun hmake => absurd hmake.2.1 (Nat.not_lt.mpr hfull), rfl⟩
    next hroom =>
      split
      next hgrid => exact .inl ⟨fun hmake => hgrid hmake.2.2.1, rfl⟩
      next hgrid =>
        dsimp only
        split
        next hbins => exact .inl ⟨fun hmake => by have := hmake.2.2.2; omega, rfl⟩
        next hbins =>
          split
          next hpfb =>
            refine .inl ⟨?_, rfl⟩
            rintro ⟨-, -, -, -, -, hos, hmem⟩
            rcases hpfb with ⟨hover, hmod⟩ | hmem'
            · exact hmod (hos hover)
            · exact Bool.false_ne_true (hmem'.symm.trans hmem)
          next hpfb =>
            obtain ⟨hos, hmem⟩ := not_or.mp hpfb
            refine .inr (.inr ⟨⟨hnone, by omega, not_not.mp hgrid, by omega, by omega, ?_, ?_⟩, rfl⟩)
            · exact fun hover => not_not.mp fun hmod => hos ⟨hover, hmod⟩
            · exact Bool.not_eq_false _ ▸ hmem

theorem addChannel_cases (mem : Memory) (t : Tuner) (cfg : ChannelCfg) :
    (¬t.MakesGroup mem cfg ∧ addChannel mem t cfg = (t, none)) ∨
      (¬t.MakesGroup mem cfg ∧ 0 < cfg.bwHz ∧ ∃ gidx g, t.groups[gidx]? = some g ∧
        g.Serves cfg.bwHz.toNat cfg.os ∧ addChannel mem t cfg = t.bind mem cfg gidx g) ∨
      (t.MakesGroup mem cfg ∧
        addChannel mem t cfg = (t.grow cfg.bwHz.toNat cfg.os cfg.fHz).bind mem cfg t.groups.length
          (t.newGroup cfg.bwHz.toNat cfg.os cfg.fHz)) := by
  unfold addChannel
  split
  next hfull => exact .inl ⟨fun hmakes => absurd hmakes.1 (Nat.not_lt.mpr hfull), rfl⟩
  next hroom =>
    split
    next hbad =>
      refine .inl ⟨?_, rfl⟩
      rintro ⟨-, hbw, hrate, -⟩
      rcases hbad with hneg | hzero
      · omega
      · exact hrate hzero
    next hgood =>
      split
      next hwide => exact .inl ⟨fun hmakes => absurd hmakes.2.2.2.1 (Nat.not_le.mpr hwide), rfl⟩
      next hfits =>
        obtain ⟨hbw, hrate⟩ := not_or.mp hgood
        rcases findOrCreateGroup_cases mem t cfg.bwHz.toNat cfg.os cfg.fHz with
          ⟨hcan, heq⟩ | ⟨hcan, gidx, g, hg, hserves, heq⟩ | ⟨hcan, heq⟩
        · rw [heq]
          exact .inl ⟨fun hmakes => hcan hmakes.2.2.2.2, rfl⟩
        · rw [heq]
          dsimp only
          rw [hg]
          exact .inr (.inl ⟨fun hmakes => hcan hmakes.2.2.2.2, by omega, gidx, g, hg, hserves, rfl⟩)
        · rw [heq]
          dsimp only
          have hnew : (t.grow cfg.bwHz.toNat cfg.os cfg.fHz).groups[t.groups.length]? =
              some (t.newGroup cfg.bwHz.toNat cfg.os cfg.fHz) := getElem?_concat_length
          rw [hnew]
          exact .inr (.inr ⟨⟨by omega, by omega, hrate, by omega, hcan⟩, rfl⟩)

theorem bind_cases (mem : Memory) (t : Tuner) (cfg : ChannelCfg) (gidx : Nat) (g : Group) :
    t.bind mem cfg gidx g = (t, none) ∨
      (¬t.Outside cfg ∧ t.bind mem cfg gidx g =
        ({ t with channels := t.channels ++ [⟨cfg, gidx, g.bin cfg⟩] }, some t.channels.length)) := by
  unfold Tuner.bind
  split
  next => exact .inl rfl
  next hinside =>
    split
    next => exact .inl rfl
    next => exact .inr ⟨hinside, rfl⟩

/-! ## The filterbanks behind it -/

section

variable {ν R : Type*} [CommRing R]

def Group.bank (design : Design ν R) (fCenter : Nat) (g : Group) : PfbGroup ν R :=
  ⟨g.bwHz, g.osFactor, .fresh (design.prototype g.m pfbTapsPerBr) g.m pfbTapsPerBr g.osFactor
    (design.oscillator ((g.bin0Freq : Int) - fCenter))⟩

def Tuner.forget (design : Design ν R) (t : Tuner) : Channelizer ν R :=
  ⟨t.fCenter, t.sampRate, t.groups.map (Group.bank design t.fCenter),
    t.channels.map fun ch => ⟨ch.cfg, ch.groupIdx⟩⟩

theorem pfbCreateOs_fresh (h : List R) {m l os : Nat} (nco : ν) (hm : 1 ≤ m) (hl : 2 ≤ l)
    (hos : 1 ≤ os) : pfbCreateOs h m l os nco =
      if 1 < os ∧ m % os ≠ 0 then none else some (.fresh h m l os nco) := by
  have hset : (if os < 1 then 1 else os) = os := if_neg (Nat.not_lt.mpr hos)
  simp only [pfbCreateOs, hset]
  split
  next => rfl
  next =>
    rw [pfbCreate, if_neg (by omega), map_some]
    split
    next hone => rw [hone]
    next => rfl

theorem forget_findOrCreateGroup (design : Design ν R) (t : Tuner) (bwHz : Nat) {os : Nat}
    (hos : 1 ≤ os) (first : Nat) :
    Sdr.findOrCreateGroup design (t.forget design) bwHz os first =
      (findOrCreateGroup ⟨true, true⟩ t bwHz os first).map fun r => (r.1, r.2.forget design) := by
  unfold Sdr.findOrCreateGroup findOrCreateGroup
  have hfind : (t.forget design).groups.findIdx? (fun g => g.bwHz = bwHz ∧ g.osFactor = os) =
      t.groups.findIdx? (fun g => g.Serves bwHz os) := by
    rw [Tuner.forget, findIdx?_map]
    rfl
  have hlength : (t.forget design).groups.length = t.groups.length := length_map _
  rw [hfind]
  generalize t.groups.findIdx? (fun g => g.Serves bwHz os) = found
  cases found with
  | some gidx => rfl
  | none =>
    dsimp only
    rw [hlength, show (t.forget design).sampRate = t.sampRate from rfl]
    by_cases hfull : maxPfbGroups ≤ t.groups.length
    · rw [if_pos hfull, if_pos hfull]
      rfl
    rw [if_neg hfull, if_neg hfull]
    by_cases hmod : t.sampRate % bwHz ≠ 0
    · rw [if_pos hmod, if_pos hmod]
      rfl
    rw [if_neg hmod, if_neg hmod]
    by_cases hbins : t.sampRate / bwHz < 1 ∨ 2 ^ 31 ≤ t.sampRate / bwHz
    · rw [if_pos hbins, if_pos hbins]
      rfl
    rw [if_neg hbins, if_neg hbins,
      pfbCreateOs_fresh _ _ (show 1 ≤ t.sampRate / bwHz by omega) (by decide) hos]
    by_cases hgrid : 1 < os ∧ t.sampRate / bwHz % os ≠ 0
    · rw [if_pos hgrid, if_pos (.inl hgrid)]
      rfl
    · rw [if_neg hgrid, if_neg (not_or.mpr ⟨hgrid, nofun⟩)]
      simp [Tuner.newGroup, Group.bank, Tuner.forget]

theorem forget_bind (design : Design ν R) (t : Tuner) (cfg : ChannelCfg) (gidx : Nat) (g : Group) :
    (if 2 * cfg.fHz + (t.forget design).sampRate < 2 * (t.forget design).fCenter ∨
          2 * (t.forget design).fCenter + (t.forget design).sampRate < 2 * cfg.fHz then
        (t.forget design, none)
      else ({ t.forget design with channels := (t.forget design).channels ++ [⟨cfg, gidx⟩] },
        some (t.forget design).channels.length)) =
      ((t.bind ⟨true, true⟩ cfg gidx g).1.forget design, (t.bind ⟨true, true⟩ cfg gidx g).2) := by
  unfold Tuner.bind
  by_cases hout : t.Outside cfg
  · rw [if_pos hout]
    exact if_pos hout
  · rw [if_neg hout, if_neg Bool.true_eq_false.mp]
    refine (if_neg hout).trans ?_
    simp [Tuner.forget]

theorem forget_addChannel (design : Design ν R) (t : Tuner) (cfg : ChannelCfg) :
    channelizerAddChannel design (t.forget design) cfg =
      ((addChannel ⟨true, true⟩ t cfg).1.forget design, (addChannel ⟨true, true⟩ t cfg).2) := by
  have hlength : (t.forget design).channels.length = t.channels.length := length_map _
  have hrate : (t.forget design).sampRate = t.sampRate := rfl
  unfold channelizerAddChannel addChannel
  rw [hlength, hrate, forget_findOrCreateGroup design t _ cfg.os_pos]
  by_cases hfull : channelizerMaxChannels ≤ t.channels.length
  · rw [if_pos hfull, if_pos hfull]
  rw [if_neg hfull, if_neg hfull]
  by_cases hbad : cfg.bwHz ≤ 0 ∨ t.sampRate = 0
  · rw [if_pos hbad, if_pos hbad]
  rw [if_neg hbad, if_neg hbad]
  by_cases hwide : t.sampRate < cfg.bwHz.toNat
  · rw [if_pos hwide, if_pos hwide]
  rw [if_neg hwide, if_neg hwide]
  rcases findOrCreateGroup_cases ⟨true, true⟩ t cfg.bwHz.toNat cfg.os cfg.fHz with
    ⟨-, heq⟩ | ⟨-, gidx, g, hg, -, heq⟩ | ⟨-, heq⟩
  · rw [heq]
    rfl
  · rw [heq]
    dsimp only [map_some]
    rw [hg]
    exact forget_bind design t cfg gidx g
  · rw [heq]
    dsimp only [map_some]
    have hnew : (t.grow cfg.bwHz.toNat cfg.os cfg.fHz).groups[t.groups.length]? =
        some (t.newGroup cfg.bwHz.toNat cfg.os cfg.fHz) := getElem?_concat_length
    rw [hnew]
    exact forget_bind design _ cfg _ _

end

/-! ## Failed calls -/

def calls (t : Tuner) (later : List (Memory × ChannelCfg)) : Tuner × List (Option Nat) :=
  Mealy.run (fun t call => ((addChannel call.1 t call.2).1, [(addChannel call.1 t call.2).2])) t later

/-- **Failed calls.** A call that fails leaves the groups and channels, and every later call its
result and bin, as they would be without it, exactly when it makes no group. -/
theorem failed_add_iff (t : Tuner) (mem : Memory) (cfg : ChannelCfg)
    (hfail : (addChannel mem t cfg).2 = none) :
    (∀ later, calls (addChannel mem t cfg).1 later = calls t later) ↔ ¬t.MakesGroup mem cfg := by
  have hbind : ∀ {t' : Tuner} {gidx : Nat} {g : Group}, (t'.bind mem cfg gidx g).2 = none →
      t'.bind mem cfg gidx g = (t', none) := by
    intro t' gidx g hnone
    rcases bind_cases mem t' cfg gidx g with heq | ⟨-, heq⟩
    · exact heq
    · rw [heq] at hnone
      cases hnone
  rcases addChannel_cases mem t cfg with ⟨hno, heq⟩ | ⟨hno, -, gidx, g, -, -, heq⟩ | ⟨hmakes, heq⟩
  · rw [heq]
    exact ⟨fun _ => hno, fun _ _ => rfl⟩
  · rw [heq] at hfail ⊢
    rw [hbind hfail]
    exact ⟨fun _ => hno, fun _ _ => rfl⟩
  · rw [heq] at hfail ⊢
    rw [hbind hfail]
    refine ⟨fun hsame => ?_, fun hno => absurd hmakes hno⟩
    -- the group is there right after the call
    have hgroups := congrArg (fun r => r.1.groups.length) (hsame [])
    have hlength : (t.grow cfg.bwHz.toNat cfg.os cfg.fHz).groups.length = t.groups.length + 1 :=
      length_append
    exact absurd (hlength.symm.trans hgroups) (Nat.succ_ne_self _)

def plenty : Memory := ⟨true, true⟩

def captured : Tuner := .create 915000000 2000000

def channelAt (fHz : Nat) : ChannelCfg := ⟨fHz, 250000, 1⟩

theorem failed_add_iff_grouped :
    let t := (addChannel plenty captured (channelAt 915000000)).1
    (addChannel plenty t (channelAt 930000000)).2 = none ∧
      ∀ later, calls (addChannel plenty t (channelAt 930000000)).1 later = calls t later := by
  refine ⟨by decide +kernel, (failed_add_iff _ _ _ (by decide +kernel)).mpr fun hmakes => ?_⟩
  have hserves : (captured.newGroup 250000 1 915000000).Serves 250000 1 := ⟨rfl, rfl⟩
  exact hmakes.2.2.2.2.1 _ (mem_singleton_self _) hserves

/-- **A failed call shifts the grid.** The group made for the refused channel stays, and one at
915.35 MHz gets bin 1 of a grid through 917 MHz. -/
theorem failed_add_shifts_grid :
    (addChannel plenty captured (channelAt 917000000)).2 = none ∧
      (calls (addChannel plenty captured (channelAt 917000000)).1
        [(plenty, channelAt 915350000)]).1.groups.map Group.bin0Freq = [917000000] ∧
      (calls (addChannel plenty captured (channelAt 917000000)).1
        [(plenty, channelAt 915350000)]).1.channels.map Chan.bin = [1] ∧
      (calls captured [(plenty, channelAt 915350000)]).1.groups.map Group.bin0Freq = [915350000] ∧
      (calls captured [(plenty, channelAt 915350000)]).1.channels.map Chan.bin = [0] := by
  decide +kernel

/-! ## Tuning -/

def Group.centre (g : Group) (bin : Nat) : Int := g.bin0Freq + bin * g.bwHz

theorem roundAway_intCast (k : Int) : roundAway k = k := by
  have hhalf : ⌊(1 / 2 : ℚ)⌋ = 0 := by norm_num
  unfold roundAway
  split
  next => rw [Int.floor_intCast_add, hhalf, add_zero]
  next => rw [← Int.cast_neg, Int.floor_intCast_add, hhalf, add_zero, neg_neg]

theorem abs_roundAway_sub_le (q : ℚ) : |(roundAway q : ℚ) - q| ≤ 1 / 2 := by
  have hfloor : ∀ r : ℚ, |(⌊r + 1 / 2⌋ : ℚ) - r| ≤ 1 / 2 := by
    intro r
    have hle := Int.floor_le (r + 1 / 2)
    have hlt := Int.lt_floor_add_one (r + 1 / 2)
    rw [abs_le]
    constructor <;> linarith
  unfold roundAway
  split
  next => exact hfloor q
  next =>
    have hneg := hfloor (-q)
    rw [Int.cast_neg, ← abs_neg]
    convert hneg using 2
    ring

variable {g : Group} {sampRate : Nat} {cfg : ChannelCfg} {t : Tuner} {asked : List ChannelCfg}
  {mem : Memory}

theorem bin_modEq (hm : 0 < g.m) (cfg : ChannelCfg) :
    (g.bin cfg : Int) ≡ roundAway ((((cfg.fHz : Int) - g.bin0Freq : Int) : ℚ) / cfg.bwHz)
      [ZMOD g.m] := by
  unfold Group.bin
  dsimp only
  generalize roundAway _ = b
  have hm' : (0 : Int) < g.m := Int.natCast_pos.mpr hm
  have hlow := Int.lt_tmod_of_pos b hm'
  have hsum : 0 ≤ b.tmod g.m + g.m := by omega
  rw [Int.tmod_eq_emod_of_nonneg hsum, Int.toNat_of_nonneg (Int.emod_nonneg _ hm'.ne')]
  have hdiv := Int.mul_tdiv_add_tmod b g.m
  calc (b.tmod g.m + g.m) % g.m ≡ b.tmod g.m + g.m [ZMOD g.m] := Int.mod_modEq _ _
    _ ≡ b [ZMOD g.m] := by
      refine (Int.modEq_iff_dvd.mpr ⟨b.tdiv g.m - 1, ?_⟩)
      linarith

theorem centre_iff (hm : 0 < g.m) (hbw : 0 < g.bwHz) (hrate : g.m * g.bwHz = sampRate)
    (hcfg : cfg.bwHz = g.bwHz) :
    g.centre (g.bin cfg) ≡ cfg.fHz [ZMOD sampRate] ↔ cfg.bwHz ∣ (cfg.fHz : Int) - g.bin0Freq := by
  have hbin := bin_modEq hm cfg
  rw [hcfg] at hbin ⊢
  generalize (cfg.fHz : Int) = f at hbin ⊢
  have hbwQ : (0 : ℚ) < g.bwHz := Nat.cast_pos.mpr hbw
  rw [Int.cast_natCast] at hbin
  generalize hb : roundAway (((f - g.bin0Freq : Int) : ℚ) / g.bwHz) = b at hbin
  have hcentre : g.centre (g.bin cfg) ≡ g.bin0Freq + b * g.bwHz [ZMOD sampRate] := by
    rw [← hrate, Nat.cast_mul]
    exact (hbin.mul_right' (c := (g.bwHz : Int))).add_left _
  have hnear : |b * g.bwHz - (f - g.bin0Freq)| < (sampRate : Int) := by
    -- rounding is off by half a bin at most, and the sample rate is at least a bin
    have hround := abs_roundAway_sub_le (((f - g.bin0Freq : Int) : ℚ) / g.bwHz)
    rw [hb] at hround
    have hscaled : ((b * g.bwHz - (f - g.bin0Freq) : Int) : ℚ) =
        (b - ((f - g.bin0Freq : Int) : ℚ) / g.bwHz) * g.bwHz := by
      rw [sub_mul, div_mul_cancel₀ _ hbwQ.ne']
      push_cast
      ring
    have hhalf : |((b * g.bwHz - (f - g.bin0Freq) : Int) : ℚ)| < g.bwHz := by
      rw [hscaled, abs_mul, abs_of_pos hbwQ]
      nlinarith
    have hbin : g.bwHz ≤ sampRate := hrate ▸ Nat.le_mul_of_pos_left g.bwHz hm
    have hlt : |b * g.bwHz - (f - g.bin0Freq)| < (g.bwHz : Int) := by exact_mod_cast hhalf
    exact hlt.trans_le (Int.ofNat_le.mpr hbin)
  constructor
  · intro hright
    have hdvd := (hcentre.symm.trans hright).dvd
    have hzero := Int.eq_zero_of_abs_lt_dvd (x := f - (g.bin0Freq + b * g.bwHz)) hdvd (by
      rw [abs_sub_comm]
      convert hnear using 2
      ring)
    exact ⟨b, by linarith⟩
  · rintro ⟨k, hk⟩
    have hbk : b = k := by
      rw [← hb, hk]
      push_cast
      rw [mul_div_cancel_left₀ _ hbwQ.ne', roundAway_intCast]
    refine hcentre.trans ?_
    rw [hbk, show (g.bin0Freq : Int) + k * g.bwHz = f by linarith]

def SameGroup (a b : ChannelCfg) : Prop := a.bwHz = b.bwHz ∧ a.os = b.os

instance (a b : ChannelCfg) : Decidable (SameGroup a b) := inferInstanceAs (Decidable (_ ∧ _))

def OnGrid (cfgs : List ChannelCfg) : Prop :=
  ∀ cfg ∈ cfgs, ∀ first, cfgs.find? (fun c => SameGroup c cfg) = some first →
    cfg.bwHz ∣ (cfg.fHz : Int) - first.fHz

/-- All calls succeeded: a group is aligned to the first channel of its kind. -/
structure Placed (sampRate : Nat) (t : Tuner) (asked : List ChannelCfg) : Prop where
  rate : t.sampRate = sampRate
  channels : t.channels.map Chan.cfg = asked
  bw_pos : ∀ cfg ∈ asked, 0 < cfg.bwHz
  bins : ∀ ch ∈ t.channels, ∃ g, t.groups[ch.groupIdx]? = some g ∧
    g.Serves ch.cfg.bwHz.toNat ch.cfg.os ∧ ch.bin = g.bin ch.cfg
  grids : ∀ g ∈ t.groups, 0 < g.m ∧ 0 < g.bwHz ∧ g.m * g.bwHz = sampRate
  aligned : ∀ g ∈ t.groups, ∃ first, asked.find? (fun c => g.Serves c.bwHz.toNat c.os) = some first ∧
    g.bin0Freq = first.fHz

theorem placed_create (fCenter sampRate : Nat) : Placed sampRate (.create fCenter sampRate) [] where
  rate := rfl
  channels := rfl
  bw_pos _ hcfg := absurd hcfg not_mem_nil
  bins _ hch := absurd hch not_mem_nil
  grids _ hg := absurd hg not_mem_nil
  aligned _ hg := absurd hg not_mem_nil

theorem Placed.join (h : Placed sampRate t asked) (hbw : 0 < cfg.bwHz) {gidx : Nat}
    (hg : t.groups[gidx]? = some g) (hserves : g.Serves cfg.bwHz.toNat cfg.os) :
    Placed sampRate { t with channels := t.channels ++ [⟨cfg, gidx, g.bin cfg⟩] } (asked ++ [cfg]) where
  rate := h.rate
  channels := by
    show (t.channels ++ [_]).map Chan.cfg = _
    rw [map_append, h.channels]
    rfl
  bw_pos c hc := by
    rcases mem_append.mp hc with hold | hnew
    · exact h.bw_pos c hold
    · rwa [mem_singleton.mp hnew]
  bins ch hch := by
    rcases mem_append.mp hch with hold | hnew
    · exact h.bins ch hold
    · obtain rfl := mem_singleton.mp hnew
      exact ⟨g, hg, hserves, rfl⟩
  grids := h.grids
  aligned g' hg' := by
    obtain ⟨first, hfirst, hbin0⟩ := h.aligned g' hg'
    refine ⟨first, ?_, hbin0⟩
    rw [find?_append, hfirst]
    rfl

theorem Placed.open (h : Placed sampRate t asked) (hmakes : t.MakesGroup mem cfg) :
    Placed sampRate { t.grow cfg.bwHz.toNat cfg.os cfg.fHz with
      channels := t.channels ++ [⟨cfg, t.groups.length,
        (t.newGroup cfg.bwHz.toNat cfg.os cfg.fHz).bin cfg⟩] } (asked ++ [cfg]) where
  rate := h.rate
  channels := by
    show (t.channels ++ [_]).map Chan.cfg = _
    rw [map_append, h.channels]
    rfl
  bw_pos c hc := by
    rcases mem_append.mp hc with hold | hnew
    · exact h.bw_pos c hold
    · rw [mem_singleton.mp hnew]
      exact hmakes.2.1
  bins ch hch := by
    rcases mem_append.mp hch with hold | hnew
    · obtain ⟨g, hg, hrest⟩ := h.bins ch hold
      have hlt := (List.getElem?_eq_some_iff.mp hg).1
      exact ⟨g, (getElem?_append_left hlt).trans hg, hrest⟩
    · obtain rfl := mem_singleton.mp hnew
      exact ⟨_, getElem?_concat_length, ⟨rfl, rfl⟩, rfl⟩
  grids g hg := by
    rcases mem_append.mp hg with hold | hnew
    · exact h.grids g hold
    · obtain rfl := mem_singleton.mp hnew
      obtain ⟨-, hbw, -, -, -, -, hgrid, hbins, -⟩ := hmakes
      refine ⟨hbins, by show 0 < cfg.bwHz.toNat; omega, ?_⟩
      rw [← h.rate]
      exact Nat.div_mul_cancel (Nat.dvd_of_mod_eq_zero hgrid)
  aligned g hg := by
    rcases mem_append.mp hg with hold | hnew
    · obtain ⟨first, hfirst, hbin0⟩ := h.aligned g hold
      refine ⟨first, ?_, hbin0⟩
      rw [find?_append, hfirst]
      rfl
    · obtain rfl := mem_singleton.mp hnew
      refine ⟨cfg, ?_, rfl⟩
      -- a channel of this kind asked for earlier would have had its group
      have hnone : asked.find? (fun c => (t.newGroup cfg.bwHz.toNat cfg.os cfg.fHz).Serves
          c.bwHz.toNat c.os) = none := by
        rw [find?_eq_none]
        intro c hc hsame
        rw [← h.channels] at hc
        obtain ⟨ch, hch, rfl⟩ := mem_map.mp hc
        obtain ⟨g, hg', hserves, -⟩ := h.bins ch hch
        have hsame : cfg.bwHz.toNat = ch.cfg.bwHz.toNat ∧ cfg.os = ch.cfg.os := of_decide_eq_true hsame
        refine hmakes.2.2.2.2.1 g (mem_of_getElem? hg') ?_
        rwa [hsame.1, hsame.2]
      rw [find?_append, hnone]
      simp [Group.Serves, Tuner.newGroup]

theorem placed_add (h : Placed sampRate t asked) (hok : (addChannel mem t cfg).2 ≠ none) :
    Placed sampRate (addChannel mem t cfg).1 (asked ++ [cfg]) := by
  rcases addChannel_cases mem t cfg with
    ⟨-, heq⟩ | ⟨-, hbw, gidx, g, hg, hserves, heq⟩ | ⟨hmakes, heq⟩
  · exact absurd (congrArg Prod.snd heq) hok
  · rw [heq] at hok ⊢
    rcases bind_cases mem t cfg gidx g with hfail | ⟨-, hbound⟩
    · exact absurd (congrArg Prod.snd hfail) hok
    · rw [hbound]
      exact h.join hbw hg hserves
  · rw [heq] at hok ⊢
    rcases bind_cases mem (t.grow cfg.bwHz.toNat cfg.os cfg.fHz) cfg t.groups.length
      (t.newGroup cfg.bwHz.toNat cfg.os cfg.fHz) with hfail | ⟨-, hbound⟩
    · exact absurd (congrArg Prod.snd hfail) hok
    · rw [hbound]
      exact h.open hmakes

theorem placed_calls (h : Placed sampRate t asked) {later : List (Memory × ChannelCfg)}
    (hok : ∀ r ∈ (calls t later).2, r ≠ none) :
    Placed sampRate (calls t later).1 (asked ++ later.map Prod.snd) := by
  induction later generalizing t asked with
  | nil => rwa [map_nil, append_nil]
  | cons call later ih =>
    have hfirst : (addChannel call.1 t call.2).2 ≠ none := hok _ mem_cons_self
    have hrest := ih (placed_add h hfirst) fun r hr => hok r (mem_cons_of_mem _ hr)
    rwa [append_assoc] at hrest

/-- **Tuning.** After calls that all succeed, there is a channel for each, with a bin centred on the
frequency asked for, modulo the sample rate, exactly when the frequencies are on the grids of the
first channels. -/
theorem tuned_iff (fCenter sampRate : Nat) (asked : List (Memory × ChannelCfg))
    (hok : ∀ r ∈ (calls (.create fCenter sampRate) asked).2, r ≠ none) :
    let t := (calls (.create fCenter sampRate) asked).1
    t.channels.map Chan.cfg = asked.map Prod.snd ∧
      ((∀ ch ∈ t.channels, ∃ g, t.groups[ch.groupIdx]? = some g ∧
          g.centre ch.bin ≡ ch.cfg.fHz [ZMOD sampRate]) ↔
        OnGrid (asked.map Prod.snd)) := by
  intro t
  have hplaced := placed_calls (placed_create fCenter sampRate) hok
  rw [nil_append] at hplaced
  refine ⟨hplaced.channels, ?_⟩
  -- channel by channel: its group, and the first channel of that group
  have hone : ∀ ch ∈ t.channels, ∃ g first, t.groups[ch.groupIdx]? = some g ∧
      (asked.map Prod.snd).find? (fun c => SameGroup c ch.cfg) = some first ∧
      (g.centre ch.bin ≡ ch.cfg.fHz [ZMOD sampRate] ↔ ch.cfg.bwHz ∣ (ch.cfg.fHz : Int) - first.fHz) := by
    intro ch hch
    obtain ⟨g, hg, hserves, hbin⟩ := hplaced.bins ch hch
    have hmem := mem_of_getElem? hg
    obtain ⟨hm, hbw, hrate⟩ := hplaced.grids g hmem
    obtain ⟨first, hfirst, hbin0⟩ := hplaced.aligned g hmem
    have hpos : 0 < ch.cfg.bwHz :=
      hplaced.bw_pos _ (hplaced.channels ▸ mem_map_of_mem hch)
    have hcfg : ch.cfg.bwHz = g.bwHz := by
      rw [hserves.1]
      omega
    refine ⟨g, first, hg, ?_, ?_⟩
    · rw [← hfirst]
      refine find?_congr fun c hc => ?_
      have hcpos := hplaced.bw_pos c hc
      refine decide_eq_decide.mpr ?_
      rw [SameGroup, Group.Serves, hserves.1, hserves.2]
      constructor
      · rintro ⟨hbw, hos⟩
        exact ⟨by rw [hbw], hos.symm⟩
      · rintro ⟨hbw, hos⟩
        exact ⟨by omega, hos.symm⟩
    · rw [hbin, centre_iff hm hbw hrate hcfg, hbin0]
  constructor
  · intro hall cfg hcfg first hfirst
    rw [← hplaced.channels] at hcfg
    obtain ⟨ch, hch, rfl⟩ := mem_map.mp hcfg
    obtain ⟨g, first', hg, hfirst', hiff⟩ := hone ch hch
    obtain ⟨g', hg', hcentre⟩ := hall ch hch
    obtain rfl : g' = g := some.inj (hg'.symm.trans hg)
    obtain rfl : first = first' := some.inj (hfirst.symm.trans hfirst')
    exact hiff.mp hcentre
  · intro hgrid ch hch
    obtain ⟨g, first, hg, hfirst, hiff⟩ := hone ch hch
    have hmem : ch.cfg ∈ asked.map Prod.snd := hplaced.channels ▸ mem_map_of_mem hch
    exact ⟨g, hg, hiff.mpr (hgrid ch.cfg hmem first hfirst)⟩

theorem tuned_iff_apart :
    let t := (calls captured [(plenty, channelAt 914500000), (plenty, channelAt 915500000)]).1
    t.channels.length = 2 ∧ ∀ ch ∈ t.channels, ∃ g, t.groups[ch.groupIdx]? = some g ∧
        g.centre ch.bin ≡ ch.cfg.fHz [ZMOD 2000000] := by
  refine ⟨by decide +kernel, (tuned_iff 915000000 2000000
    [(plenty, channelAt 914500000), (plenty, channelAt 915500000)] (by decide +kernel)).2.mpr ?_⟩
  intro cfg hcfg first hfirst
  simp only [map_cons, map_nil, mem_cons, not_mem_nil, or_false] at hcfg hfirst
  rcases hcfg with rfl | rfl <;> obtain rfl := some.inj hfirst <;> decide

/-- **Between two bins.** The second channel is 100 kHz from the first; it is accepted, and gets
the bin of the first. -/
theorem off_grid_channel_mistuned :
    let t := (calls captured [(plenty, channelAt 915000000), (plenty, channelAt 915100000)]).1
    t.channels.map (fun ch => (ch.cfg.fHz, ch.groupIdx, ch.bin)) = [(915000000, 0, 0), (915100000, 0, 0)] ∧
      t.groups.map (fun g => g.centre 0) = [915000000] := by
  decide +kernel

end MeshcoreSniffer.Sdr.Tuning
