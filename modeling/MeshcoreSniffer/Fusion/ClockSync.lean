import MeshcoreSniffer.Fusion.Clusters
import Mathlib.Data.List.AList
import Mathlib.Data.List.Sort

/-!
# Clock offsets from anchor transmissions

`fusion/clocksync.go`: two stations that hear one packet of an anchor learn the difference of their
clocks. `float64` and time stamps are exact, of an ordered field; `int64` of a float and the
conversion of `MaxAgeS` still truncate. Without noise every held pair has the true offset
(`Exact.run`).
-/

namespace MeshcoreSniffer.Fusion

open Lib List

/-- The functions of Go's `math` that distances use. -/
structure MathFns (K : Type*) where
  sin : K → K
  cos : K → K
  sqrt : K → K
  atan2 : K → K → K
  pi : K

structure AnchorNode (K : Type*) where
  nodeId : List Byte
  lat : K
  lon : K
  deriving DecidableEq

inductive ClockSyncStatus where
  | none | warming | converged | stale | rejected
  deriving DecidableEq, Repr

inductive TimestampClass where
  | sample | sync | softwareLock | frame
  deriving DecidableEq, Repr

structure PairOffset (K : Type*) where
  a : List Byte
  b : List Byte
  samples : List K
  sampleTimes : List Int
  medianNs : K
  madNs : K
  lastUpdate : Int
  anchorEvents : Nat
  deriving DecidableEq

structure ClockSyncConfig (K : Type*) where
  minAnchorEvents : Nat
  maxMadNs : K
  maxAgeS : K
  maxSamples : Nat
  maxRssiDbm : K

abbrev PairTable (K : Type*) := AList fun _ : List Byte => PairOffset K

structure ClockSync (K : Type*) where
  anchors : AList fun _ : List Byte => AnchorNode K
  pairs : PairTable K
  config : ClockSyncConfig K
  lastAnchorObsNs : List Byte → K

/-- The state of one pair when an anchor cluster touched it. -/
structure PairSnapshotRecord (K : Type*) where
  pairKey : List Byte
  snapshotTimeNs : K
  lastAnchorTimeNs : Int
  medianNs : K
  madNs : K
  sampleCount : Nat
  statusAtSnapshot : ClockSyncStatus
  maxAgeS : K
  deriving DecidableEq

def pairKey (a b : List Byte) : List Byte :=
  if a < b then a ++ ascii "|" ++ b else b ++ ascii "|" ++ a

/-- The pairs `(i, j)` with `i < j`, in the order of the two nested loops. -/
def pairsOf {α : Type*} : List α → List (α × α)
  | [] => []
  | x :: rest => rest.map (x, ·) ++ pairsOf rest

def keepFrom (cutoff : Int) : List Int → Nat
  | [] => 0
  | t :: rest => if cutoff < t then 0 else keepFrom cutoff rest + 1

section Model

-- named, so that a numeral carries the same proof in every module
instance two_le_halfTurn : Nat.AtLeastTwo 180 := ⟨by decide⟩

instance two_le_earthR : Nat.AtLeastTwo 6371000 := ⟨by decide⟩

instance two_le_nanos : Nat.AtLeastTwo 1000000000 := ⟨by decide⟩

variable {K : Type*} [Field K] [LinearOrder K] [FloorRing K]

def truncate (x : K) : Int := if 0 ≤ x then ⌊x⌋ else ⌈x⌉

def speedOfLight : K := 299792458

def haversineM (m : MathFns K) (lat1 lon1 lat2 lon2 : K) : K :=
  let earthR := 6371000
  let rlat1 := lat1 * m.pi / 180
  let rlat2 := lat2 * m.pi / 180
  let dLat := (lat2 - lat1) * m.pi / 180
  let dLon := (lon2 - lon1) * m.pi / 180
  let a := m.sin (dLat / 2) * m.sin (dLat / 2)
    + m.cos rlat1 * m.cos rlat2 * m.sin (dLon / 2) * m.sin (dLon / 2)
  let c := 2 * m.atan2 (m.sqrt a) (m.sqrt (1 - a))
  earthR * c

def distMeters (m : MathFns K) (anchorLat anchorLon stationLat stationLon : K) : K :=
  haversineM m anchorLat anchorLon stationLat stationLon

def ClockSyncConfig.maxAge (cfg : ClockSyncConfig K) : Int := truncate (cfg.maxAgeS * 1000000000)

def newClockSync (cfg : ClockSyncConfig K) : ClockSync K where
  anchors := ∅
  pairs := ∅
  config := cfg
  lastAnchorObsNs := fun _ => 0

/-- `none` when the node is registered already. -/
def ClockSync.addAnchor (cs : ClockSync K) (a : AnchorNode K) : Option (ClockSync K) :=
  if a.nodeId ∈ cs.anchors then none
  else some { cs with anchors := cs.anchors.insert a.nodeId a }

def declareAnchors (cs : ClockSync K) (anchors : List (AnchorNode K)) : ClockSync K :=
  anchors.foldl (fun cs a => (cs.addAnchor a).getD cs) cs

def usableForSync (cfg : ClockSyncConfig K) (o : Observation K K) : Bool :=
  !decide (o.preambleLockTNs = 0) && !decide (o.rssiDb ≠ 0 ∧ cfg.maxRssiDbm < o.rssiDb)

/-- The state of the monotonicity guard while it walks the observations. -/
structure GuardState (K : Type*) where
  last : List Byte → K
  stepped : List (List Byte)
  filtered : List (Observation K K)

def guardStep (g : GuardState K) (o : Observation K K) : GuardState K :=
  let prev := g.last o.station
  let tol : K := if o.stationTAccNs < 1000000 then 1000000 else (o.stationTAccNs : K)
  if prev ≠ 0 ∧ o.preambleLockTNs + tol < prev then
    { g with
      last := Function.update g.last o.station o.preambleLockTNs
      stepped := g.stepped ++ [o.station] }
  else
    { g with
      last := if prev < o.preambleLockTNs then
          Function.update g.last o.station o.preambleLockTNs else g.last
      filtered := g.filtered ++ [o] }

def clockGuard (last : List Byte → K) (usable : List (Observation K K)) : GuardState K :=
  usable.foldl guardStep ⟨last, [], []⟩

def dropStations (stepped : List (List Byte)) (pairs : PairTable K) : PairTable K :=
  ⟨pairs.entries.filter fun e => !(stepped.contains e.2.a || stepped.contains e.2.b),
    pairs.nodupKeys.sublist List.filter_sublist⟩

def middle (xs : List K) : K := (xs.insertionSort (· ≤ ·)).getD (xs.length / 2) 0

def PairOffset.recomputeMedianMad (po : PairOffset K) : PairOffset K :=
  let median := middle po.samples
  { po with medianNs := median, madNs := middle (po.samples.map fun v => |v - median|) }

def PairOffset.record (cfg : ClockSyncConfig K) (now : Int) (offsetNs : K) (po : PairOffset K) :
    PairOffset K :=
  let samples := po.samples ++ [offsetNs]
  let times := po.sampleTimes ++ [now]
  let excess := samples.length - cfg.maxSamples
  let old := keepFrom (now - cfg.maxAge) (times.drop excess)
  PairOffset.recomputeMedianMad
    { po with
      samples := (samples.drop excess).drop old
      sampleTimes := (times.drop excess).drop old
      anchorEvents := po.anchorEvents + 1
      lastUpdate := now }

def offsetOf (m : MathFns K) (anchor : AnchorNode K) (A B : Observation K K) : K :=
  let distA := distMeters m anchor.lat anchor.lon A.stationLat A.stationLon
  let distB := distMeters m anchor.lat anchor.lon B.stationLat B.stationLon
  (B.preambleLockTNs - A.preambleLockTNs) - (distB - distA) / speedOfLight * 1000000000

def freshPair (a b : List Byte) : PairOffset K := ⟨a, b, [], [], 0, 0, 0, 0⟩

def orient (pairs : PairTable K) (A B : List Byte) (offsetNs : K) : PairOffset K × K :=
  match pairs.lookup (pairKey A B) with
  | none =>
    if pairKey A B = A ++ ascii "|" ++ B then (freshPair A B, offsetNs)
    else (freshPair B A, -offsetNs)
  | some po => (po, if po.a ≠ A then -offsetNs else offsetNs)

def touchPair (m : MathFns K) (cfg : ClockSyncConfig K) (anchor : AnchorNode K) (now : Int)
    (pairs : PairTable K) (ab : Observation K K × Observation K K) : PairTable K :=
  let target := orient pairs ab.1.station ab.2.station (offsetOf m anchor ab.1 ab.2)
  pairs.insert (pairKey ab.1.station ab.2.station) (target.1.record cfg now target.2)

def pairStatusNow (cfg : ClockSyncConfig K) (now : Int) (po : PairOffset K) : ClockSyncStatus :=
  if po.anchorEvents = 0 then .none
  else if po.samples.length < cfg.minAnchorEvents then .warming
  else if cfg.maxMadNs < po.madNs then .rejected
  else if po.lastUpdate < now - cfg.maxAge then .stale
  else .converged

def snapshotOf (cfg : ClockSyncConfig K) (now : Int) (snapshotTimeNs : K) (pairs : PairTable K)
    (key : List Byte) : Option (PairSnapshotRecord K) :=
  (pairs.lookup key).map fun po =>
    { pairKey := key
      snapshotTimeNs := snapshotTimeNs
      lastAnchorTimeNs := po.lastUpdate
      medianNs := po.medianNs
      madNs := po.madNs
      sampleCount := po.samples.length
      statusAtSnapshot := pairStatusNow cfg now po
      maxAgeS := cfg.maxAgeS }

def touchedKeys (abs : List (Observation K K × Observation K K)) : List (List Byte) :=
  (abs.map fun ab => pairKey ab.1.station ab.2.station).dedup

def latestLock (observations : List (Observation K K)) : K :=
  observations.foldl
    (fun latest o => if latest < o.preambleLockTNs then o.preambleLockTNs else latest) 0

/-- The new state and the snapshots to persist. Its readings of the clock are one reading, `now`. -/
def ClockSync.feedCluster (m : MathFns K) (cs : ClockSync K) (now : Int) (c : Cluster K K) :
    ClockSync K × List (PairSnapshotRecord K) :=
  if c.observations.length < 2 then (cs, [])
  else
    match cs.anchors.lookup c.frame.fromId with
    | none => (cs, [])
    | some anchor =>
      let usable := c.observations.filter (usableForSync cs.config)
      if usable.length < 2 then (cs, [])
      else
        let g := clockGuard cs.lastAnchorObsNs usable
        let kept := dropStations g.stepped cs.pairs
        if g.filtered.length < 2 then ({ cs with lastAnchorObsNs := g.last, pairs := kept }, [])
        else
          let abs := pairsOf g.filtered
          let pairs := abs.foldl (touchPair m cs.config anchor now) kept
          let snapshotTimeNs := latestLock g.filtered
          ({ cs with lastAnchorObsNs := g.last, pairs := pairs },
            if snapshotTimeNs = 0 then []
            else (touchedKeys abs).filterMap (snapshotOf cs.config now snapshotTimeNs pairs))

def ClockSync.stationHasConvergedPair (cs : ClockSync K) (now : Int) (station : List Byte) : Bool :=
  cs.pairs.entries.any fun e =>
    (e.2.a == station || e.2.b == station) && decide (pairStatusNow cs.config now e.2 = .converged)

def ClockSync.correctAndClassify (cs : ClockSync K) (now : Int) (obs : Observation K K)
    (refStation : List Byte) : K × TimestampClass :=
  if obs.preambleLockTNs = 0 then (obs.stationTNs, .frame)
  else if refStation = [] ∨ refStation = obs.station then
    if cs.stationHasConvergedPair now obs.station then (obs.preambleLockTNs, .sync)
    else (obs.preambleLockTNs, .softwareLock)
  else
    match cs.pairs.lookup (pairKey obs.station refStation) with
    | none => (obs.preambleLockTNs, .softwareLock)
    | some po =>
      if pairStatusNow cs.config now po ≠ .converged then (obs.preambleLockTNs, .softwareLock)
      else
        let corrected :=
          if obs.station = po.a ∧ refStation = po.b then
            obs.preambleLockTNs + (truncate po.medianNs : K)
          else obs.preambleLockTNs - (truncate po.medianNs : K)
        (if corrected < 0 then 0 else corrected, .sync)

end Model

/-! ## Lists of equal samples -/

theorem rel_of_mem_pairsOf {α : Type*} {R : α → α → Prop} {l : List α} (h : l.Pairwise R)
    {ab : α × α} (hab : ab ∈ pairsOf l) : R ab.1 ab.2 := by
  induction l with
  | nil => simp [pairsOf] at hab
  | cons x rest ih =>
    rw [pairwise_cons] at h
    rcases mem_append.mp hab with hmap | hrest
    · obtain ⟨y, hy, rfl⟩ := mem_map.mp hmap
      exact h.1 y hy
    · exact ih h.2 hrest

theorem mem_of_mem_pairsOf {α : Type*} {l : List α} {ab : α × α} (hab : ab ∈ pairsOf l) :
    ab.1 ∈ l ∧ ab.2 ∈ l := by
  induction l with
  | nil => simp [pairsOf] at hab
  | cons x rest ih =>
    rcases mem_append.mp hab with hmap | hrest
    · obtain ⟨y, hy, rfl⟩ := mem_map.mp hmap
      exact ⟨mem_cons_self, mem_cons_of_mem _ hy⟩
    · obtain ⟨h1, h2⟩ := ih hrest
      exact ⟨mem_cons_of_mem _ h1, mem_cons_of_mem _ h2⟩

theorem keepFrom_snoc_lt {cutoff now : Int} (h : cutoff < now) (times : List Int) :
    keepFrom cutoff (times ++ [now]) < times.length + 1 := by
  induction times with
  | nil => simp [keepFrom, h]
  | cons t rest ih =>
    rw [cons_append, keepFrom, length_cons]
    split <;> omega

section Exact

variable {K : Type*} [Field K] [LinearOrder K]

theorem middle_of_forall {xs : List K} {d : K} (hne : xs ≠ []) (h : ∀ x ∈ xs, x = d) :
    middle xs = d := by
  have hlt : xs.length / 2 < (xs.insertionSort (· ≤ ·)).length := by
    rw [length_insertionSort]
    exact Nat.div_lt_self (length_pos_of_ne_nil hne) (by decide)
  rw [middle, getD_eq_getElem _ _ hlt]
  exact h _ ((mem_insertionSort (· ≤ ·)).mp (getElem_mem hlt))

variable [FloorRing K]

theorem maxAge_pos {cfg : ClockSyncConfig K} (h : 1 ≤ cfg.maxAgeS * 1000000000) :
    0 < cfg.maxAge := by
  have hfloor : (1 : Int) ≤ ⌊cfg.maxAgeS * 1000000000⌋ := Int.le_floor.mpr (by exact_mod_cast h)
  rw [ClockSyncConfig.maxAge, truncate, if_pos (zero_le_one.trans h)]
  omega

variable [IsStrictOrderedRing K]

@[simp] theorem truncate_intCast (z : Int) : truncate (z : K) = z := by
  simp [truncate]

/-! ## What a held pair knows -/

variable (off : List Byte → Int)

/-- In canonical order, with true offset differences as samples. -/
structure Oriented (key : List Byte) (po : PairOffset K) : Prop where
  key_eq : key = po.a ++ ascii "|" ++ po.b
  ordered : po.a < po.b
  bar_a : 124#8 ∉ po.a
  bar_b : 124#8 ∉ po.b
  times : po.sampleTimes.length = po.samples.length
  sample : ∀ x ∈ po.samples, x = (off po.b : K) - off po.a

structure Calibrated (key : List Byte) (po : PairOffset K) : Prop extends
    Oriented off key po where
  median : po.medianNs = (off po.b : K) - off po.a
  mad : po.madNs = 0

variable {off} {cfg : ClockSyncConfig K}

omit [IsStrictOrderedRing K] in
theorem samples_record_ne_nil (hage : 0 < cfg.maxAge) (hcap : 0 < cfg.maxSamples)
    {po : PairOffset K} (htimes : po.sampleTimes.length = po.samples.length) (now : Int) (x : K) :
    (po.record cfg now x).samples ≠ [] := by
  have hexcess : (po.samples ++ [x]).length - cfg.maxSamples ≤ po.sampleTimes.length := by
    rw [length_append, length_singleton]
    omega
  have hkeep := keepFrom_snoc_lt (show now - cfg.maxAge < now by omega)
    (po.sampleTimes.drop ((po.samples ++ [x]).length - cfg.maxSamples))
  rw [← drop_append_of_le_length hexcess] at hkeep
  apply ne_nil_of_length_pos
  simp only [PairOffset.record, PairOffset.recomputeMedianMad, length_drop,
    length_append, length_singleton] at hkeep hexcess ⊢
  omega

variable {key a b : List Byte} {x : K} {pairs : PairTable K} {place : List Byte → K × K}
  {anchor : AnchorNode K} {c : Cluster K K} {cs : ClockSync K}

theorem Oriented.record (hage : 0 < cfg.maxAge) (hcap : 0 < cfg.maxSamples) {po : PairOffset K}
    (h : Oriented off key po) (now : Int) (hx : x = (off po.b : K) - off po.a) :
    Calibrated off key (po.record cfg now x) := by
  have hsample : ∀ y ∈ (po.record cfg now x).samples, y = (off po.b : K) - off po.a := by
    intro y hy
    have hmem : y ∈ po.samples ++ [x] := mem_of_mem_drop (mem_of_mem_drop hy)
    rcases mem_append.mp hmem with hold | hnew
    · exact h.sample y hold
    · rw [mem_singleton.mp hnew, hx]
  have hne := samples_record_ne_nil hage hcap h.times now x
  have hmedian : middle (po.record cfg now x).samples = (off po.b : K) - off po.a :=
    middle_of_forall hne hsample
  refine ⟨⟨h.key_eq, h.ordered, h.bar_a, h.bar_b, ?_, hsample⟩, hmedian, ?_⟩
  · simp only [PairOffset.record, PairOffset.recomputeMedianMad, length_drop,
      length_append, length_singleton, h.times]
  · -- every deviation from the common value is zero
    show middle ((po.record cfg now x).samples.map fun v =>
      |v - middle (po.record cfg now x).samples|) = 0
    refine middle_of_forall (by simpa using hne) fun y hy => ?_
    obtain ⟨v, hv, rfl⟩ := mem_map.mp hy
    rw [hmedian, hsample v hv, sub_self, abs_zero]

/-! ## Names and keys -/

theorem pairKey_cases (hne : a ≠ b) :
    (a < b ∧ pairKey a b = a ++ ascii "|" ++ b) ∨ (b < a ∧ pairKey a b = b ++ ascii "|" ++ a) := by
  rw [pairKey]
  split
  next hlt => exact .inl ⟨hlt, rfl⟩
  next hge => exact .inr ⟨Std.lt_of_le_of_ne hge (Ne.symm hne), rfl⟩

theorem joined_inj {a' b' : List Byte} (hb : 124#8 ∉ b) (hb' : 124#8 ∉ b')
    (h : a ++ ascii "|" ++ b = a' ++ ascii "|" ++ b') : a = a' ∧ b = b' := by
  have hbar : ascii "|" = [124#8] := by decide
  rw [hbar, append_assoc, append_assoc, singleton_append, singleton_append] at h
  exact append_cons_inj_of_not_mem hb hb' h

def Exact (off : List Byte → Int) (pairs : PairTable K) : Prop :=
  ∀ key po, pairs.lookup key = some po → Calibrated off key po

omit [LinearOrder K] [FloorRing K] [IsStrictOrderedRing K] in
/-- **Sign.** However two stations are listed, the sample is the later name's offset minus the
earlier name's. -/
theorem Exact.orient (h : Exact off pairs) {A B : List Byte} (hne : A ≠ B) (hA : 124#8 ∉ A)
    (hB : 124#8 ∉ B) (hx : x = (off B : K) - off A) :
    Oriented off (pairKey A B) (orient pairs A B x).1 ∧
      (orient pairs A B x).2 =
        (off (orient pairs A B x).1.b : K) - off (orient pairs A B x).1.a := by
  have hflip : -x = (off A : K) - off B := by rw [hx, neg_sub]
  rw [Fusion.orient]
  cases hlookup : pairs.lookup (pairKey A B) with
  | none =>
    rcases pairKey_cases hne with ⟨hlt, hkey⟩ | ⟨hlt, hkey⟩
    · rw [hkey]
      simp only [if_true]
      exact ⟨⟨rfl, hlt, hA, hB, rfl, by simp [freshPair]⟩, hx⟩
    · have hother : pairKey A B ≠ A ++ ascii "|" ++ B := by
        rw [hkey]
        intro heq
        exact hne (joined_inj hA hB heq).2
      simp only [if_neg hother]
      exact ⟨⟨hkey, hlt, hB, hA, rfl, by simp [freshPair]⟩, hflip⟩
  | some po =>
    have hpo := h _ _ hlookup
    refine ⟨hpo.toOriented, ?_⟩
    rcases pairKey_cases hne with ⟨-, hkey⟩ | ⟨-, hkey⟩
    · obtain ⟨ha, hb⟩ := joined_inj hB hpo.bar_b (hkey.symm.trans hpo.key_eq)
      simp only [← ha, ← hb, ne_eq, not_true_eq_false, if_false]
      exact hx
    · obtain ⟨ha, hb⟩ := joined_inj hA hpo.bar_b (hkey.symm.trans hpo.key_eq)
      simp only [← ha, ← hb, ne_eq, Ne.symm hne, not_false_eq_true, if_true]
      exact hflip

/-! ## Noise-free anchor clusters -/

variable (m : MathFns K)

/-- Every observation locks at emission time plus travel time plus the station's offset. -/
structure NoiseFree (off : List Byte → Int) (place : List Byte → K × K) (anchor : AnchorNode K)
    (c : Cluster K K) : Prop where
  distinct : (c.observations.map (·.station)).Nodup
  names : ∀ o ∈ c.observations, 124#8 ∉ o.station
  places : ∀ o ∈ c.observations, (o.stationLat, o.stationLon) = place o.station
  locks : ∃ emitted : K, ∀ o ∈ c.observations, o.preambleLockTNs = emitted +
    distMeters m anchor.lat anchor.lon (place o.station).1 (place o.station).2
      / speedOfLight * 1000000000 + off o.station

variable {m}

omit [IsStrictOrderedRing K] in
theorem NoiseFree.offsetOf_eq (h : NoiseFree m off place anchor c) {A B : Observation K K}
    (hA : A ∈ c.observations) (hB : B ∈ c.observations) :
    offsetOf m anchor A B = (off B.station : K) - off A.station := by
  obtain ⟨emitted, hlocks⟩ := h.locks
  have hplace : ∀ o ∈ c.observations,
      o.stationLat = (place o.station).1 ∧ o.stationLon = (place o.station).2 := fun o ho =>
    Prod.mk.inj (h.places o ho)
  rw [offsetOf, hlocks A hA, hlocks B hB, (hplace A hA).1, (hplace A hA).2, (hplace B hB).1,
    (hplace B hB).2]
  ring

omit [IsStrictOrderedRing K] in
/-- What holds of every pair still does if it holds of the one that is recorded. -/
theorem forall_touchPair {P : List Byte → PairOffset K → Prop} {now : Int}
    {ab : Observation K K × Observation K K} (h : ∀ key po, pairs.lookup key = some po → P key po)
    (hnew : let target := orient pairs ab.1.station ab.2.station (offsetOf m anchor ab.1 ab.2)
      P (pairKey ab.1.station ab.2.station) (target.1.record cfg now target.2)) :
    ∀ key po, (touchPair m cfg anchor now pairs ab).lookup key = some po → P key po := by
  intro key po hlookup
  by_cases hkey : key = pairKey ab.1.station ab.2.station
  · subst hkey
    rw [touchPair, AList.lookup_insert] at hlookup
    cases hlookup
    exact hnew
  · rw [touchPair, AList.lookup_insert_ne hkey] at hlookup
    exact h key po hlookup

theorem Exact.touchPair (hage : 0 < cfg.maxAge) (hcap : 0 < cfg.maxSamples) (h : Exact off pairs)
    (hc : NoiseFree m off place anchor c) (now : Int) {ab : Observation K K × Observation K K}
    (hA : ab.1 ∈ c.observations) (hB : ab.2 ∈ c.observations) (hne : ab.1.station ≠ ab.2.station) :
    Exact off (touchPair m cfg anchor now pairs ab) := by
  obtain ⟨horiented, hsample⟩ :=
    h.orient hne (hc.names _ hA) (hc.names _ hB) (hc.offsetOf_eq hA hB)
  exact forall_touchPair h (horiented.record hage hcap now hsample)

omit [FloorRing K] [IsStrictOrderedRing K] in
theorem filtered_guardStep (g : GuardState K) (o : Observation K K) :
    (guardStep g o).filtered = g.filtered ∨ (guardStep g o).filtered = g.filtered ++ [o] := by
  rw [guardStep]
  -- the tolerance is a case split of its own, which does not matter here
  generalize (if o.stationTAccNs < 1000000 then (1000000 : K) else o.stationTAccNs) = tol
  split
  · exact .inl rfl
  · exact .inr rfl

omit [FloorRing K] [IsStrictOrderedRing K] in
theorem filtered_clockGuard_sublist (last : List Byte → K) (usable : List (Observation K K)) :
    (clockGuard last usable).filtered.Sublist usable := by
  induction usable using reverseRecOn with
  | nil => exact List.Sublist.refl _
  | append_singleton os o ih =>
    rw [clockGuard, foldl_append, foldl_cons, foldl_nil]
    rcases filtered_guardStep (clockGuard last os) o with hgone | hkept
    · rw [← clockGuard, hgone]
      exact ih.trans (sublist_append_left _ _)
    · rw [← clockGuard, hkept]
      exact ih.append (List.Sublist.refl _)

omit [Field K] [LinearOrder K] [FloorRing K] [IsStrictOrderedRing K] in
theorem lookup_of_lookup_dropStations {stepped : List (List Byte)} {po : PairOffset K}
    (h : (dropStations stepped pairs).lookup key = some po) : pairs.lookup key = some po :=
  AList.mem_lookup_iff.mpr (mem_filter.mp (AList.mem_lookup_iff.mp h)).1

omit [LinearOrder K] [FloorRing K] [IsStrictOrderedRing K] in
theorem Exact.dropStations (h : Exact off pairs) (stepped : List (List Byte)) :
    Exact off (dropStations stepped pairs) := by
  intro key po hlookup
  exact h key po (lookup_of_lookup_dropStations hlookup)

theorem Exact.foldl_touchPair (hage : 0 < cfg.maxAge) (hcap : 0 < cfg.maxSamples)
    (hc : NoiseFree m off place anchor c) (now : Int)
    (abs : List (Observation K K × Observation K K)) (h : Exact off pairs)
    (habs : ∀ ab ∈ abs, ab.1 ∈ c.observations ∧ ab.2 ∈ c.observations ∧ ab.1.station ≠ ab.2.station) :
    Exact off (abs.foldl (Fusion.touchPair m cfg anchor now) pairs) := by
  induction abs generalizing pairs with
  | nil => exact h
  | cons ab rest ih =>
    obtain ⟨hA, hB, hne⟩ := habs ab mem_cons_self
    exact ih (h.touchPair hage hcap hc now hA hB hne)
      fun ab' hab' => habs ab' (mem_cons_of_mem _ hab')

theorem Exact.feedCluster (hage : 0 < cs.config.maxAge) (hcap : 0 < cs.config.maxSamples)
    (h : Exact off cs.pairs) (now : Int)
    (hc : ∀ anchor, cs.anchors.lookup c.frame.fromId = some anchor → NoiseFree m off place anchor c) :
    Exact off (cs.feedCluster m now c).1.pairs := by
  rw [ClockSync.feedCluster]
  split
  · exact h
  cases hanchor : cs.anchors.lookup c.frame.fromId with
  | none => exact h
  | some anchor =>
    have hfree := hc anchor hanchor
    dsimp only
    split
    · exact h
    split
    · exact h.dropStations _
    -- the pairs come from a sublist of the cluster, so their stations differ
    have hsub := (filtered_clockGuard_sublist cs.lastAnchorObsNs _).trans
      (filter_sublist (p := usableForSync cs.config) (l := c.observations))
    have hdistinct := pairwise_map.mp (hfree.distinct.sublist (hsub.map (·.station)))
    refine (h.dropStations _).foldl_touchPair hage hcap hfree now _ fun ab hab => ?_
    obtain ⟨hA, hB⟩ := mem_of_mem_pairsOf hab
    exact ⟨hsub.subset hA, hsub.subset hB, rel_of_mem_pairsOf hdistinct hab⟩

omit [IsStrictOrderedRing K] in
theorem feedCluster_settings (cs : ClockSync K) (now : Int) (c : Cluster K K) :
    (cs.feedCluster m now c).1.config = cs.config ∧
      (cs.feedCluster m now c).1.anchors = cs.anchors := by
  rw [ClockSync.feedCluster]
  split
  · exact ⟨rfl, rfl⟩
  cases cs.anchors.lookup c.frame.fromId with
  | none => exact ⟨rfl, rfl⟩
  | some anchor =>
    dsimp only
    split
    · exact ⟨rfl, rfl⟩
    split <;> exact ⟨rfl, rfl⟩

/-! ## Whole runs -/

def ClockSync.feedAll (m : MathFns K) (cs : ClockSync K) (feeds : List (Int × Cluster K K)) :
    ClockSync K :=
  feeds.foldl (fun cs feed => (cs.feedCluster m feed.1 feed.2).1) cs

theorem Exact.run (feeds : List (Int × Cluster K K)) (hage : 0 < cs.config.maxAge)
    (hcap : 0 < cs.config.maxSamples) (h : Exact off cs.pairs)
    (hfeeds : ∀ feed ∈ feeds, ∀ anchor, cs.anchors.lookup feed.2.frame.fromId = some anchor → NoiseFree m off place anchor feed.2) :
    Exact off (cs.feedAll m feeds).pairs := by
  induction feeds generalizing cs with
  | nil => exact h
  | cons feed rest ih =>
    obtain ⟨hconfig, hanchors⟩ := feedCluster_settings (m := m) cs feed.1 feed.2
    refine ih (by rw [hconfig]; exact hage) (by rw [hconfig]; exact hcap)
      (h.feedCluster hage hcap feed.1 (hfeeds feed mem_cons_self)) ?_
    rw [hanchors]
    exact fun feed' hfeed' => hfeeds feed' (mem_cons_of_mem _ hfeed')

omit [Field K] [LinearOrder K] [FloorRing K] [IsStrictOrderedRing K] in
theorem declareAnchors_settings (anchors : List (AnchorNode K)) (cs : ClockSync K) :
    (declareAnchors cs anchors).config = cs.config ∧
      (declareAnchors cs anchors).pairs = cs.pairs := by
  induction anchors generalizing cs with
  | nil => exact ⟨rfl, rfl⟩
  | cons a rest ih =>
    obtain ⟨hconfig, hpairs⟩ := ih ((cs.addAnchor a).getD cs)
    have hone : ((cs.addAnchor a).getD cs).config = cs.config ∧
        ((cs.addAnchor a).getD cs).pairs = cs.pairs := by
      rw [ClockSync.addAnchor]
      split <;> exact ⟨rfl, rfl⟩
    exact ⟨hconfig.trans hone.1, hpairs.trans hone.2⟩

theorem Calibrated.correct {now : Int} {obs : Observation K K} {refStation : List Byte}
    {po : PairOffset K} (h : Calibrated off (pairKey obs.station refStation) po)
    (hobs : 124#8 ∉ obs.station) (href : 124#8 ∉ refStation) (hnamed : refStation ≠ [])
    {arrival : K} (hlock : obs.preambleLockTNs = arrival + off obs.station)
    (hset : obs.preambleLockTNs ≠ 0)
    (hlookup : cs.pairs.lookup (pairKey obs.station refStation) = some po)
    (hstatus : pairStatusNow cs.config now po = .converged) :
    cs.correctAndClassify now obs refStation = (max 0 (arrival + off refStation), .sync) := by
  have hne : obs.station ≠ refStation := by
    intro heq
    have hkey : pairKey obs.station refStation = refStation ++ ascii "|" ++ refStation := by
      rw [heq, pairKey, ite_self]
    obtain ⟨ha, hb⟩ := joined_inj href h.bar_b (hkey.symm.trans h.key_eq)
    exact absurd h.ordered (by rw [← ha, ← hb]; exact Std.lt_irrefl)
  have hcast : (truncate po.medianNs : K) = off po.b - off po.a := by
    rw [h.median, ← Int.cast_sub, truncate_intCast]
  have hclamp : ∀ x : K, (if x < 0 then 0 else x) = max 0 x := by
    intro x
    rcases lt_or_ge x 0 with hneg | hpos
    · rw [if_pos hneg, max_eq_left hneg.le]
    · rw [if_neg (not_lt.mpr hpos), max_eq_right hpos]
  rw [ClockSync.correctAndClassify, if_neg hset, if_neg (by tauto), hlookup]
  simp only [hstatus, ne_eq, not_true_eq_false, if_false, hclamp, hcast, hlock]
  rcases pairKey_cases hne with ⟨-, hkey⟩ | ⟨-, hkey⟩
  · -- the observation is on the first side of the pair
    obtain ⟨ha, hb⟩ := joined_inj href h.bar_b (hkey.symm.trans h.key_eq)
    rw [if_pos ⟨ha, hb⟩, ← ha, ← hb]
    congr 2
    ring
  · obtain ⟨ha, hb⟩ := joined_inj hobs h.bar_b (hkey.symm.trans h.key_eq)
    rw [if_neg (by rw [← ha]; exact fun hcon => hne hcon.1), ← ha, ← hb]
    congr 2
    ring

/-- **Noise-free clock-sync.** Every held pair has the true offset difference and no deviation after
every run of clusters, and an observation with a converged pair to a named reference is moved onto
the reference clock. -/
theorem noiseFree_clockSync (m : MathFns K) (cfg : ClockSyncConfig K)
    (hage : 1 ≤ cfg.maxAgeS * 1000000000) (hcap : 0 < cfg.maxSamples)
    (anchors : List (AnchorNode K)) (off : List Byte → Int) (place : List Byte → K × K)
    (feeds : List (Int × Cluster K K))
    (hfeeds : ∀ feed ∈ feeds, ∀ anchor,
      (declareAnchors (newClockSync cfg) anchors).anchors.lookup feed.2.frame.fromId = some anchor →
      NoiseFree m off place anchor feed.2) :
    let cs := (declareAnchors (newClockSync cfg) anchors).feedAll m feeds
    (∀ key po, cs.pairs.lookup key = some po →
      po.a < po.b ∧ key = po.a ++ ascii "|" ++ po.b ∧
        po.medianNs = (off po.b : K) - off po.a ∧ po.madNs = 0) ∧
    ∀ (now : Int) (obs : Observation K K) (refStation : List Byte) (arrival : K)
      (po : PairOffset K), 124#8 ∉ obs.station → 124#8 ∉ refStation → refStation ≠ [] →
      obs.preambleLockTNs = arrival + off obs.station → obs.preambleLockTNs ≠ 0 →
      cs.pairs.lookup (pairKey obs.station refStation) = some po →
      pairStatusNow cs.config now po = .converged →
      cs.correctAndClassify now obs refStation = (max 0 (arrival + off refStation), .sync) := by
  intro cs
  obtain ⟨hconfig, hpairs⟩ := declareAnchors_settings anchors (newClockSync cfg)
  have hexact : Exact off cs.pairs := by
    refine Exact.run feeds (by rw [hconfig]; exact maxAge_pos hage)
      (by rw [hconfig]; exact hcap) ?_ hfeeds
    rw [hpairs]
    intro key po hlookup
    cases hlookup
  refine ⟨fun key po hlookup => ?_, ?_⟩
  · have hpo := hexact key po hlookup
    exact ⟨hpo.ordered, hpo.key_eq, hpo.median, hpo.mad⟩
  · intro now obs refStation arrival po hobs href hnamed hlock hset hlookup hstatus
    exact (hexact _ _ hlookup).correct hobs href hnamed hlock hset hlookup hstatus

end Exact

/-! ## Runs at one place

Stations and anchor share one position, so all distances are zero and the offsets
are read off the locks. -/

def atOnePlace : MathFns ℚ where
  sin := id
  cos := fun _ => 1
  sqrt := id
  atan2 := fun y _ => y
  pi := 3141592653589793 / 1000000000000000

def heardAt (station : List Byte) (stationTNs lock : ℚ) : Observation ℚ ℚ :=
  ⟨station, 0, 0, 0, stationTNs, 0, lock, 5, -90, 0⟩

def beacon : AnchorNode ℚ := ⟨ascii "!abcd1234", 0, 0⟩

def beaconCluster (observations : List (Observation ℚ ℚ)) : Cluster ℚ ℚ where
  key := clusterKey beacon.nodeId 1
  baseKey := clusterKey beacon.nodeId 1
  emissionSeq := 0
  firstSeen := 0
  frame := ⟨ascii "packet", [], 0, 0, 0, 0, 0, 0, beacon.nodeId, 1, 0, 0⟩
  observations := observations
  minPreambleLockTNs := 0
  maxPreambleLockTNs := 0
  lowTrust := false
  stationDupesSuppressed := 0

def quickConfig (maxAgeS : ℚ) : ClockSyncConfig ℚ := ⟨1, 5000, maxAgeS, 64, -20⟩

/-- Offsets of a station without a name, of `a` and of every other station. -/
def sampleOffset (station : List Byte) : Int :=
  if station = [] then 3 else if station = ascii "a" then -5 else 0

def threeStations : Cluster ℚ ℚ :=
  beaconCluster [heardAt (ascii "b") 0 1000, heardAt (ascii "a") 0 995, heardAt [] 0 1003]

theorem noiseFree_threeStations :
    NoiseFree atOnePlace sampleOffset (fun _ => (0, 0)) beacon threeStations where
  distinct := by decide
  names := by decide
  places := by
    intro o ho
    simp only [threeStations, beaconCluster, mem_cons, not_mem_nil, or_false] at ho
    rcases ho with rfl | rfl | rfl <;> rfl
  locks := by
    refine ⟨1000, fun o ho => ?_⟩
    simp only [threeStations, beaconCluster, mem_cons, not_mem_nil, or_false] at ho
    rcases ho with rfl | rfl | rfl <;> decide +kernel

def calibratedRun (maxAgeS : ℚ) : ClockSync ℚ :=
  (declareAnchors (newClockSync (quickConfig maxAgeS)) [beacon]).feedAll atOnePlace
    [(1, threeStations)]

/-- Where the stations of a spread pair are. -/
def sitePlace (station : List Byte) : ℚ × ℚ := if station = ascii "a" then (1, 0) else (0, 2)

/-- A frame that `a` and `b` hear at their sites, each after its own way. -/
def spreadPair (emitted : ℚ) : Cluster ℚ ℚ :=
  beaconCluster ([ascii "b", ascii "a"].map fun station =>
    { heardAt station 0 (emitted + distMeters atOnePlace 0 0 (sitePlace station).1 (sitePlace station).2
        / speedOfLight * 1000000000 + sampleOffset station) with
      stationLat := (sitePlace station).1
      stationLon := (sitePlace station).2 })

theorem noiseFree_spreadPair (emitted : ℚ) :
    NoiseFree atOnePlace sampleOffset sitePlace beacon (spreadPair emitted) where
  distinct := show [ascii "b", ascii "a"].Nodup by decide
  names := forall_mem_map.mpr (show ∀ station ∈ [ascii "b", ascii "a"], 124#8 ∉ station by decide)
  places := forall_mem_map.mpr fun _ _ => rfl
  locks := ⟨emitted, forall_mem_map.mpr fun _ _ => rfl⟩

def spreadRun : ClockSync ℚ :=
  (declareAnchors (newClockSync (quickConfig 600)) [beacon]).feedAll atOnePlace
    [(1, spreadPair 1000), (2, spreadPair 5000)]

theorem noiseFree_clockSync_spreadPair :
    spreadRun.correctAndClassify 3 (heardAt (ascii "b") 0 9000) (ascii "a") =
      (max 0 (9000 + ((sampleOffset (ascii "a") : Int) : ℚ)), .sync) := by
  have hmain := (noiseFree_clockSync atOnePlace (quickConfig 600) (by decide +kernel) (by decide)
    [beacon] sampleOffset sitePlace [(1, spreadPair 1000), (2, spreadPair 5000)] (by
      intro feed hfeed anchor hanchor
      simp only [mem_cons, not_mem_nil, or_false] at hfeed
      rcases hfeed with rfl | rfl <;> cases hanchor <;> exact noiseFree_spreadPair _)).2
  have hpair : (spreadRun.pairs.lookup (ascii "a|b")).map (pairStatusNow spreadRun.config 3) =
      some .converged := by decide +kernel
  obtain ⟨po, hlookup, hstatus⟩ := Option.map_eq_some_iff.mp hpair
  exact hmain 3 _ _ 9000 po (by decide) (by decide) (by decide) (by decide +kernel) (by decide +kernel)
    hlookup hstatus

/-- Exactness has four limits: an age below one nanosecond truncates to nothing and
empties every pair, a lock of zero means that there is none, a corrected time is
never negative, and a station without a name is no reference. -/
theorem clockSync_limits :
    NoiseFree atOnePlace sampleOffset (fun _ => (0, 0)) beacon threeStations ∧
    ((calibratedRun (1 / 10000000000)).pairs.lookup (ascii "a|b")).map (·.medianNs) = some 0 ∧
    ((sampleOffset (ascii "b") : Int) : ℚ) - sampleOffset (ascii "a") = 5 ∧
    -- arrival 5 at `a`, so the clock of `b` reads 5
    (calibratedRun 600).correctAndClassify 2 (heardAt (ascii "a") 7 0) (ascii "b") = (7, .frame) ∧
    -- arrival 1 at `b`, so the clock of `a` reads -4
    (calibratedRun 600).correctAndClassify 2 (heardAt (ascii "b") 7 1) (ascii "a") = (0, .sync) ∧
    -- arrival 10 at `b`, so the clock of the nameless station reads 13
    (calibratedRun 600).correctAndClassify 2 (heardAt (ascii "b") 7 10) [] = (10, .sync) ∧
    ((calibratedRun 600).pairs.lookup (pairKey (ascii "b") [])).map
      (pairStatusNow (quickConfig 600) 2) = some .converged := by
  refine ⟨noiseFree_threeStations, ?_⟩
  decide +kernel

end MeshcoreSniffer.Fusion
