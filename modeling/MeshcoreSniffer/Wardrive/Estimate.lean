import MeshcoreSniffer.Fusion.ClockSync
import MeshcoreSniffer.Wardrive.Kml

/-!
# Where a node is

`EstimateLocation` takes a node's own report, or else the centroid of the places it was heard at, by
the square of the received power. Numbers are exact.
-/

namespace MeshcoreSniffer.Wardrive

open List Lib

/-- The place and the power of a reception. -/
structure Observation (F : Type) where
  rxLat : F
  rxLon : F
  rssidBm : F

variable {F T : Type}

def Observation.tagged [Zero F] [DecidableEq F] (o : Observation F) : Bool :=
  !(o.rxLat = 0 && o.rxLon = 0)

local instance two_le_two : Nat.AtLeastTwo 2 := ⟨le_rfl⟩

local instance two_le_ten : Nat.AtLeastTwo 10 := ⟨by decide⟩

variable [Field F] (m : Fusion.MathFns F) (pow : F → F → F)

def haversineMeters (lat1 lon1 lat2 lon2 : F) : F :=
  let degToRad := m.pi / 180
  let dLat := (lat2 - lat1) * degToRad
  let dLon := (lon2 - lon1) * degToRad
  let a := m.sin (dLat / 2) * m.sin (dLat / 2) +
    m.cos (lat1 * degToRad) * m.cos (lat2 * degToRad) * m.sin (dLon / 2) * m.sin (dLon / 2)
  let c := 2 * m.atan2 (m.sqrt a) (m.sqrt (1 - a))
  6371000 * c

def weighted (o : Observation F) : F × F × F :=
  let linear := pow 10 (o.rssidBm / 10)
  (o.rxLat, o.rxLon, linear * linear)

/-- The centroid and its weighted standard distance. -/
def centroid (wts : List (F × F × F)) : F × F × F :=
  let sumW := (wts.map (·.2.2)).sum
  let lat := (wts.map fun w => w.1 * w.2.2).sum / sumW
  let lon := (wts.map fun w => w.2.1 * w.2.2).sum / sumW
  let sumWD2 := (wts.map fun w =>
    w.2.2 * haversineMeters m lat lon w.1 w.2.1 * haversineMeters m lat lon w.1 w.2.1).sum
  (lat, lon, m.sqrt (sumWD2 / sumW))

section

variable [LinearOrder F]

def weights (usable : List (Observation F)) : List (F × F × F) :=
  let wts := usable.map (weighted pow)
  if (wts.map (·.2.2)).sum ≤ 0 then wts.map fun w => (w.1, w.2.1, 1) else wts

/-- What it returns, and the aggregate it leaves. -/
def estimateLocation (agg : NodeAggregate F T) (obs : List (Observation F)) : Bool × NodeAggregate F T :=
  if agg.selfReportedLat ≠ 0 ∨ agg.selfReportedLon ≠ 0 then
    (true, { agg with
      estLat := agg.selfReportedLat
      estLon := agg.selfReportedLon
      estUncertaintyM := 50
      estMethod := ascii "self-reported" })
  else
    let usable := obs.filter (·.tagged)
    if usable = [] then (false, agg)
    else
      let c := centroid m (weights pow usable)
      (true, { agg with
        estLat := c.1
        estLon := c.2.1
        estUncertaintyM := if c.2.2 < 50 then 50 else c.2.2
        estMethod := ascii "rssi2-weighted-centroid" })

variable {m pow}

theorem estimateLocation_of_unreported {agg : NodeAggregate F T} {obs : List (Observation F)}
    (hself : agg.selfReportedLat = 0 ∧ agg.selfReportedLon = 0) (hgps : ∃ o ∈ obs, o.tagged) :
    estimateLocation m pow agg obs =
      let c := centroid m (weights pow (obs.filter (·.tagged)))
      (true, { agg with
        estLat := c.1
        estLon := c.2.1
        estUncertaintyM := if c.2.2 < 50 then 50 else c.2.2
        estMethod := ascii "rssi2-weighted-centroid" }) := by
  have hne : obs.filter (·.tagged) ≠ [] := by
    obtain ⟨o, ho, htagged⟩ := hgps
    exact ne_nil_of_mem (mem_filter.mpr ⟨ho, htagged⟩)
  rw [estimateLocation, if_neg (by simp [hself]), if_neg hne]

end

/-! ## Sums -/

theorem centroid_perm {wts wts' : List (F × F × F)} (h : wts.Perm wts') :
    centroid m wts = centroid m wts' := by
  simp only [centroid, (h.map _).sum_eq]

theorem centroid_scale {k : F} (hk : k ≠ 0) (wts : List (F × F × F)) :
    centroid m (wts.map fun w => (w.1, w.2.1, k * w.2.2)) = centroid m wts := by
  have hsum : ∀ g : F × F × F → F, (∀ w, g (w.1, w.2.1, k * w.2.2) = k * g w) →
      ((wts.map fun w => (w.1, w.2.1, k * w.2.2)).map g).sum = k * (wts.map g).sum := by
    intro g hg
    rw [map_map, ← sum_map_mul_left]
    exact congrArg sum (map_congr_left fun w _ => hg w)
  simp only [centroid]
  rw [hsum (·.2.2) fun w => rfl, hsum (fun w => w.1 * w.2.2) fun w => by ring,
    hsum (fun w => w.2.1 * w.2.2) fun w => by ring, mul_div_mul_left _ _ hk, mul_div_mul_left _ _ hk,
    hsum (fun w => w.2.2 * _ * _) fun w => by ring, mul_div_mul_left _ _ hk]

variable {α : Type*} [LinearOrder F] [IsStrictOrderedRing F]

theorem lt_weighted_mean {l : List α} (hne : l ≠ []) {w x : α → F} {c : F} (hw : ∀ a ∈ l, 0 < w a)
    (hx : ∀ a ∈ l, c < x a) : c < (l.map fun a => x a * w a).sum / (l.map w).sum := by
  have hpos : 0 < (l.map w).sum := sum_pos _ (by simpa using hw) (by simpa using hne)
  rw [lt_div_iff₀ hpos, ← sum_map_mul_left]
  exact sum_lt_sum_of_ne_nil hne _ _ fun a ha => mul_lt_mul_of_pos_right (hx a ha) (hw a ha)

theorem exists_le_weighted_mean {l : List α} (hne : l ≠ []) {w x : α → F} (hw : ∀ a ∈ l, 0 < w a) :
    (∃ a ∈ l, x a ≤ (l.map fun a => x a * w a).sum / (l.map w).sum) ∧
      ∃ a ∈ l, (l.map fun a => x a * w a).sum / (l.map w).sum ≤ x a := by
  constructor
  · by_contra hno
    push Not at hno
    exact lt_irrefl _ (lt_weighted_mean hne hw hno)
  · by_contra hno
    push Not at hno
    have hlt := lt_weighted_mean hne hw fun a ha => neg_lt_neg (hno a ha)
    have hneg : (l.map fun a => -x a * w a).sum = -(l.map fun a => x a * w a).sum := by
      simp [sum_neg, Function.comp_def]
    rw [hneg, neg_div] at hlt
    exact lt_irrefl _ hlt

/-! ## Real arithmetic -/

noncomputable def realMath : Fusion.MathFns ℝ where
  sin := Real.sin
  cos := Real.cos
  sqrt := Real.sqrt
  atan2 := fun y x => Complex.arg ⟨x, y⟩
  pi := Real.pi

def Observation.louder (c : ℝ) (o : Observation ℝ) : Observation ℝ :=
  { o with rssidBm := o.rssidBm + c }

theorem weight_pos (o : Observation ℝ) : 0 < (weighted Real.rpow o).2.2 :=
  mul_self_pos.mpr (Real.rpow_pos_of_pos (by norm_num) _).ne'

theorem weights_real {usable : List (Observation ℝ)} (hne : usable ≠ []) :
    weights Real.rpow usable = usable.map (weighted Real.rpow) := by
  have hpos : 0 < ((usable.map (weighted Real.rpow)).map (·.2.2)).sum := by
    rw [map_map]
    refine sum_pos _ (fun w hw => ?_) (by simpa using hne)
    obtain ⟨o, -, rfl⟩ := mem_map.mp hw
    exact weight_pos o
  rw [weights, if_neg (not_le.mpr hpos)]

theorem weighted_louder (c : ℝ) (o : Observation ℝ) :
    weighted Real.rpow (o.louder c) = (o.rxLat, o.rxLon,
      Real.rpow 10 (c / 10) * Real.rpow 10 (c / 10) * (weighted Real.rpow o).2.2) := by
  have hpow : Real.rpow 10 ((o.rssidBm + c) / 10) =
      Real.rpow 10 (o.rssidBm / 10) * Real.rpow 10 (c / 10) := by
    rw [add_div]
    exact Real.rpow_add (by norm_num) _ _
  simp only [weighted, Observation.louder, hpow]
  congr 2
  ring

/-- **Centroid.** Without a report of the node, the estimate lies between the places it was heard
at, and neither it nor its uncertainty depends on the order of the observations or on the gain of
the receiver. -/
theorem estimate_sane (agg : NodeAggregate ℝ T) (obs : List (Observation ℝ))
    (hself : agg.selfReportedLat = 0 ∧ agg.selfReportedLon = 0) (hgps : ∃ o ∈ obs, o.tagged) :
    let estimate := estimateLocation realMath Real.rpow agg
    let est := (estimate obs).2
    let heard := obs.filter (·.tagged)
    ((∃ o ∈ heard, o.rxLat ≤ est.estLat) ∧ ∃ o ∈ heard, est.estLat ≤ o.rxLat) ∧
    ((∃ o ∈ heard, o.rxLon ≤ est.estLon) ∧ ∃ o ∈ heard, est.estLon ≤ o.rxLon) ∧
    50 ≤ est.estUncertaintyM ∧
    (∀ c, estimate (obs.map (·.louder c)) = estimate obs) ∧
    ∀ obs', obs'.Perm obs → estimate obs' = estimate obs := by
  intro estimate est heard
  have hne : heard ≠ [] := by
    obtain ⟨o, ho, htagged⟩ := hgps
    exact ne_nil_of_mem (mem_filter.mpr ⟨ho, htagged⟩)
  have hest : estimate obs = _ := estimateLocation_of_unreported hself hgps
  have hbounds : ∀ x : Observation ℝ → ℝ, _ := fun x =>
    exists_le_weighted_mean (x := x) hne fun o _ => weight_pos o
  refine ⟨?_, ?_, ?_, fun c => ?_, fun obs' hperm => ?_⟩
  · simpa [est, hest, centroid, weights_real hne, Function.comp_def, weighted, heard] using
      hbounds (·.rxLat)
  · simpa [est, hest, centroid, weights_real hne, Function.comp_def, weighted, heard] using
      hbounds (·.rxLon)
  · simp only [est, hest]
    split
    next => exact le_refl _
    next hge => exact not_lt.mp hge
  · have hgps' : ∃ o ∈ obs.map (·.louder c), o.tagged := by
      obtain ⟨o, ho, htagged⟩ := hgps
      exact ⟨_, mem_map_of_mem ho, htagged⟩
    have hheard : (obs.map (·.louder c)).filter (·.tagged) = heard.map (·.louder c) := filter_map
    have hscale : (heard.map (·.louder c)).map (weighted Real.rpow) =
        (heard.map (weighted Real.rpow)).map fun w =>
          (w.1, w.2.1, Real.rpow 10 (c / 10) * Real.rpow 10 (c / 10) * w.2.2) := by
      rw [map_map, map_map]
      exact map_congr_left fun o _ => weighted_louder c o
    have hk : Real.rpow 10 (c / 10) ≠ 0 := (Real.rpow_pos_of_pos (by norm_num) _).ne'
    rw [hest]
    refine (estimateLocation_of_unreported hself hgps').trans ?_
    rw [hheard, weights_real (by simpa using hne), hscale, centroid_scale _ (mul_ne_zero hk hk),
      ← weights_real hne]
  · have hheard : (obs'.filter (·.tagged)).Perm heard := hperm.filter _
    have hgps' : ∃ o ∈ obs', o.tagged := by
      obtain ⟨o, ho, htagged⟩ := hgps
      exact ⟨o, hperm.mem_iff.mpr ho, htagged⟩
    rw [hest]
    refine (estimateLocation_of_unreported hself hgps').trans ?_
    rw [weights_real fun hnil => hne (hnil ▸ hheard).symm.eq_nil,
      centroid_perm _ (hheard.map (weighted Real.rpow)), ← weights_real hne]

def unplaced : NodeAggregate ℝ ℕ :=
  ⟨ascii "a", [], [], 0, 0, [], 0, [], 0, 0, 0, 0, 0, 0, 0, 0, 0, [], 0, 0, none⟩

def heardAt (lat lon rssidBm : ℤ) : Observation ℝ := ⟨lat, lon, rssidBm⟩

/-- Near the node, without a position, and far from it. -/
def drive : List (Observation ℝ) := [heardAt 1 2 (-80), heardAt 0 0 (-60), heardAt 3 6 (-100)]

theorem drive_heard : drive.filter (·.tagged) = [heardAt 1 2 (-80), heardAt 3 6 (-100)] := by
  simp [drive, Observation.tagged, heardAt]

theorem estimate_sane_drive :
    let estimate := estimateLocation realMath Real.rpow unplaced
    let est := (estimate drive).2
    (1 ≤ est.estLat ∧ est.estLat ≤ 3) ∧ (2 ≤ est.estLon ∧ est.estLon ≤ 6) ∧ 50 ≤ est.estUncertaintyM ∧
      estimate (drive.map (·.louder 7)) = estimate drive ∧ estimate drive.reverse = estimate drive := by
  have hsane := estimate_sane unplaced drive ⟨rfl, rfl⟩
    ⟨_, mem_cons_self, by simp [Observation.tagged, heardAt]⟩
  simp only [drive_heard, exists_mem_cons_iff, not_mem_nil, false_and, exists_false, or_false, heardAt,
    Int.cast_one, Int.cast_ofNat] at hsane
  obtain ⟨⟨hsouth, hnorth⟩, ⟨hwest, heast⟩, hfifty, hgain, horder⟩ := hsane
  refine ⟨⟨?_, ?_⟩, ⟨?_, ?_⟩, hfifty, hgain 7, horder _ (reverse_perm _)⟩
  · exact hsouth.elim id fun h => (by norm_num : (1 : ℝ) ≤ 3).trans h
  · exact hnorth.elim (fun h => h.trans (by norm_num)) id
  · exact hwest.elim id fun h => (by norm_num : (2 : ℝ) ≤ 6).trans h
  · exact heast.elim (fun h => h.trans (by norm_num)) id

end MeshcoreSniffer.Wardrive
