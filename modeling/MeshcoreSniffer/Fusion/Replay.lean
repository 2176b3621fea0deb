import MeshcoreSniffer.Fusion.ClockSync

/-!
# Re-solving a past event

`fusion/replay.go` and the flush loop of `fusion/main.go`. A replay solves a persisted cluster again
with stored pair snapshots. The last snapshot of a held pair shows the state it is in
(`Mirrored.run`), so the two solves agree wherever their choices of reference, offset and age do.
-/

namespace MeshcoreSniffer.Fusion

open Lib List

/-- The class is absent when `HasPrecomputedClass` is false. -/
structure MlatObservation (K : Type*) where
  stationName : List Byte
  lat : K
  lon : K
  altM : K
  tNs : K
  lockTNs : K
  tAccNs : Nat
  precomputedClass : Option TimestampClass
  deriving DecidableEq

/-- What a replay reads of a row, in exact numbers; the row itself is
`Evidence.ClusterObservationRecord`. -/
structure ClusterObservationRecord (K : Type*) where
  fromId : List Byte
  packetId : Nat
  emissionSeq : Nat
  clusterTimeNs : K
  observations : List (Observation K K)

abbrev SnapshotStore (K : Type*) := List (PairSnapshotRecord K)

def pairKeyEndpoints (pk : List Byte) : Option (List Byte × List Byte) :=
  let i := pk.idxOf 124#8
  if i = 0 ∨ pk.length ≤ i + 1 then none else some (pk.take i, pk.drop (i + 1))

def smallestName : List (List Byte) → List Byte
  | [] => []
  | name :: rest => rest.foldl (fun least n => if n < least then n else least) name

section Model

variable {K : Type*} [Field K] [LinearOrder K] [FloorRing K]

/-- The row key is snapshot time and pair, so an equal key is overwritten. -/
def writePairSnapshot (store : SnapshotStore K) (rec : PairSnapshotRecord K) : SnapshotStore K :=
  store.filter (fun r => !decide (r.snapshotTimeNs = rec.snapshotTimeNs ∧ r.pairKey = rec.pairKey))
    ++ [rec]

def latestPairSnapshotAtOrBefore (store : SnapshotStore K) (eventTimeNs : K) (pairKey : List Byte) :
    Option (PairSnapshotRecord K) :=
  (store.filter fun r => decide (r.pairKey = pairKey ∧ r.snapshotTimeNs ≤ eventTimeNs)).foldl
    (fun newest r =>
      match newest with
      | none => some r
      | some n => if n.snapshotTimeNs ≤ r.snapshotTimeNs then some r else some n)
    none

def toClusterObservationRecord (c : Cluster K K) : ClusterObservationRecord K where
  fromId := c.frame.fromId
  packetId := c.frame.packetId
  emissionSeq := c.emissionSeq
  clusterTimeNs :=
    if latestLock c.observations = 0 then (c.firstSeen : K) else latestLock c.observations
  observations := c.observations

/-- With a timestamp, a position and a disciplined clock. -/
def usableForSolve (o : Observation K K) : Bool :=
  !decide (o.stationTNs = 0 ∨ o.stationLat = 0 ∨ o.stationLon = 0)
    && !decide (100000000 < o.stationTAccNs)

def mlatObservation (o : Observation K K) (lockTNs : K) (cls : Option TimestampClass) :
    MlatObservation K :=
  ⟨o.station, o.stationLat, o.stationLon, o.stationAltM, o.stationTNs, lockTNs, o.stationTAccNs, cls⟩

/-! ## The live solve -/

def pickStep (cfg : ClockSyncConfig K) (now : Int) (ref : List Byte) (po : PairOffset K) :
    List Byte :=
  if pairStatusNow cfg now po ≠ .converged then ref
  else [po.a, po.b].foldl (fun ref name => if ref = [] ∨ name < ref then name else ref) ref

def ClockSync.pickReferenceStation (cs : ClockSync K) (now : Int) : List Byte :=
  cs.pairs.entries.foldl (fun ref e => pickStep cs.config now ref e.2) []

def ClockSync.isAnchor (cs : ClockSync K) (fromId : List Byte) : Bool := decide (fromId ∈ cs.anchors)

def ClockSync.liveObservation (cs : ClockSync K) (now : Int) (refStation : List Byte)
    (o : Observation K K) : MlatObservation K :=
  if refStation ≠ [] then
    let corrected := cs.correctAndClassify now o refStation
    mlatObservation o corrected.1 (some corrected.2)
  else mlatObservation o o.preambleLockTNs none

/-- Up to the call of `Solve`: the reference and the observations it passes. -/
def ClockSync.tryGeolocate (cs : ClockSync K) (now : Int) (c : Cluster K K) :
    Option (List Byte × List (MlatObservation K)) :=
  let refStation := cs.pickReferenceStation now
  let usable := c.observations.filter usableForSolve
  if usable.length < 3 then none
  else some (refStation, usable.map (cs.liveObservation now refStation))

structure FusionState (K : Type*) where
  clockSync : ClockSync K
  store : SnapshotStore K

/-- Feed, persist the snapshots, then solve unless the cluster is an anchor's. -/
def FusionState.flush (m : MathFns K) (σ : FusionState K) (feed : Int × Cluster K K) :
    FusionState K × Option (List Byte × List (MlatObservation K)) :=
  let fed := σ.clockSync.feedCluster m feed.1 feed.2
  (⟨fed.1, fed.2.foldl writePairSnapshot σ.store⟩,
    if fed.1.isAnchor feed.2.frame.fromId then none else fed.1.tryGeolocate feed.1 feed.2)

def FusionState.flushAll (m : MathFns K) (σ : FusionState K) (feeds : List (Int × Cluster K K)) :
    FusionState K :=
  feeds.foldl (fun σ feed => (σ.flush m feed).1) σ

/-! ## The replay -/

def smallestStation (usable : List (Observation K K)) : List Byte :=
  smallestName (usable.map (·.station))

def PairSnapshotRecord.freshAt (snap : PairSnapshotRecord K) (eventTimeNs : K) : Prop :=
  0 ≤ eventTimeNs - snap.snapshotTimeNs ∧
    eventTimeNs - snap.snapshotTimeNs ≤ ((truncate (snap.maxAgeS * 1000000000) : Int) : K)

instance (snap : PairSnapshotRecord K) (eventTimeNs : K) : Decidable (snap.freshAt eventTimeNs) :=
  inferInstanceAs (Decidable (_ ∧ _))

/-- Timestamp and class of one observation, with the pair key it used. -/
def replayTimestamp (store : SnapshotStore K) (eventTimeNs : K) (refStation : List Byte)
    (o : Observation K K) : (K × TimestampClass) × Option (List Byte) :=
  if o.preambleLockTNs = 0 then ((o.stationTNs, .frame), none)
  else if o.station = refStation then ((o.preambleLockTNs, .sync), none)
  else
    let pk := pairKey o.station refStation
    match latestPairSnapshotAtOrBefore store eventTimeNs pk with
    | none => ((o.preambleLockTNs, .softwareLock), none)
    | some snap =>
      if snap.statusAtSnapshot = .converged ∧ snap.freshAt eventTimeNs then
        let pkA := ((pairKeyEndpoints pk).map Prod.fst).getD []
        let corrected :=
          if o.station = pkA then o.preambleLockTNs + (truncate snap.medianNs : K)
          else o.preambleLockTNs - (truncate snap.medianNs : K)
        ((if corrected < 0 then 0 else corrected, .sync), some pk)
      else ((o.preambleLockTNs, .softwareLock), none)

/-- What a replay passes to `Solve`, with the pair keys of its audit trail. -/
structure ReplayInputs (K : Type*) where
  refStation : List Byte
  observations : List (MlatObservation K)
  pairKeysUsed : List (List Byte)
  deriving DecidableEq

/-- `resolveAtEventTime`, up to the call of `Solve`. -/
def resolveAtEventTime (store : SnapshotStore K) (rec : ClusterObservationRecord K) :
    Except String (ReplayInputs K) :=
  let usable := rec.observations.filter usableForSolve
  if usable.length < 3 then .error "insufficient stations for solve"
  else
    let refStation := smallestStation usable
    let stamp := replayTimestamp store rec.clusterTimeNs refStation
    .ok
      { refStation := refStation
        observations := usable.map fun o => mlatObservation o (stamp o).1.1 (some (stamp o).1.2)
        pairKeysUsed := usable.filterMap fun o => (stamp o).2 }

end Model

/-! ## The store -/

section Store

variable {K : Type*} [LinearOrder K]

def lastWritten (store : SnapshotStore K) (key : List Byte) : Option (PairSnapshotRecord K) :=
  (store.filter (·.pairKey == key)).getLast?

omit [LinearOrder K] in
theorem lastWritten_snoc (store : SnapshotStore K) (rec : PairSnapshotRecord K) (key : List Byte) :
    lastWritten (store ++ [rec]) key =
      if rec.pairKey = key then some rec else lastWritten store key := by
  rw [lastWritten, filter_append]
  split
  next heq => simp [heq]
  next hne => simp [hne, lastWritten]

theorem lastWritten_write (store : SnapshotStore K) (rec : PairSnapshotRecord K)
    (key : List Byte) :
    lastWritten (writePairSnapshot store rec) key =
      if rec.pairKey = key then some rec else lastWritten store key := by
  rw [writePairSnapshot, lastWritten_snoc]
  split
  · rfl
  next hne =>
    rw [lastWritten, lastWritten, filter_filter]
    congr 1
    refine filter_congr fun r _ => ?_
    by_cases hr : r.pairKey = key
    · have hother : ¬ key = rec.pairKey := fun heq => hne heq.symm
      simp [hr, hother]
    · simp [hr]

variable {store : SnapshotStore K} {recs : List (PairSnapshotRecord K)}

theorem lastWritten_writes_of_forall_ne {key : List Byte} (h : ∀ r ∈ recs, r.pairKey ≠ key) :
    lastWritten (recs.foldl writePairSnapshot store) key = lastWritten store key := by
  induction recs generalizing store with
  | nil => rfl
  | cons r rest ih =>
    rw [foldl_cons, ih fun r' hr' => h r' (mem_cons_of_mem _ hr'), lastWritten_write,
      if_neg (h r mem_cons_self)]

theorem lastWritten_writes_of_mem {rec : PairSnapshotRecord K} (hmem : rec ∈ recs)
    (honly : ∀ r ∈ recs, r.pairKey = rec.pairKey → r = rec) :
    lastWritten (recs.foldl writePairSnapshot store) rec.pairKey = some rec := by
  induction recs using reverseRecOn with
  | nil => cases hmem
  | append_singleton rest r ih =>
    rw [foldl_append, foldl_cons, foldl_nil, lastWritten_write]
    split
    next heq => rw [honly r (by simp) heq]
    next hne =>
      have hrest : rec ∈ rest := by
        rcases mem_append.mp hmem with hrest | hlast
        · exact hrest
        · exact absurd (congrArg (·.pairKey) (mem_singleton.mp hlast).symm) hne
      exact ih hrest fun r' hr' => honly r' (mem_append_left _ hr')

end Store

section Mirror

variable {K : Type*} [Field K] [LinearOrder K] [FloorRing K]

omit [FloorRing K] in
theorem lock_le_latestLock {os : List (Observation K K)} {o : Observation K K} (ho : o ∈ os) :
    o.preambleLockTNs ≤ latestLock os := by
  have hfold : ∀ (os : List (Observation K K)) (acc : K),
      acc ≤ os.foldl (fun latest o => if latest < o.preambleLockTNs then o.preambleLockTNs
        else latest) acc ∧
      ∀ o ∈ os, o.preambleLockTNs ≤ os.foldl (fun latest o =>
        if latest < o.preambleLockTNs then o.preambleLockTNs else latest) acc := by
    intro os
    induction os with
    | nil => exact fun acc => ⟨le_refl acc, fun o ho => absurd ho not_mem_nil⟩
    | cons first rest ih =>
      intro acc
      rw [foldl_cons]
      obtain ⟨hacc, hall⟩ := ih (if acc < first.preambleLockTNs then first.preambleLockTNs else acc)
      have hstep : acc ≤ (if acc < first.preambleLockTNs then first.preambleLockTNs else acc) ∧
          first.preambleLockTNs ≤
            (if acc < first.preambleLockTNs then first.preambleLockTNs else acc) := by
        split
        next hlt => exact ⟨hlt.le, le_refl _⟩
        next hge => exact ⟨le_refl _, not_lt.mp hge⟩
      refine ⟨hstep.1.trans hacc, fun o ho => ?_⟩
      rcases mem_cons.mp ho with rfl | hrest
      · exact hstep.2.trans hacc
      · exact hall o hrest
  exact (hfold os 0).2 o ho

/-! ## Pairs and their keys -/

def Keyed (pairs : PairTable K) : Prop :=
  ∀ key po, pairs.lookup key = some po → key = po.a ++ ascii "|" ++ po.b

variable {m : MathFns K} {cfg : ClockSyncConfig K} {anchor : AnchorNode K} {now : Int}
  {pairs : PairTable K} {key a b : List Byte} {snapshotTimeNs eventTimeNs : K}
  {keys : List (List Byte)} {po : PairOffset K} {σ : FusionState K}

theorem Keyed.touchPair (h : Keyed pairs) (ab : Observation K K × Observation K K) :
    Keyed (touchPair m cfg anchor now pairs ab) := by
  refine forall_touchPair h ?_
  show _ = (orient pairs ab.1.station ab.2.station _).1.a ++ ascii "|" ++
    (orient pairs ab.1.station ab.2.station _).1.b
  rw [orient]
  cases hheld : pairs.lookup (pairKey ab.1.station ab.2.station) with
  | none =>
    dsimp only
    split
    next heq => exact heq
    next hne =>
      -- the key is one of the two orders, and not this one
      rw [pairKey] at hne ⊢
      split at hne
      · exact absurd rfl hne
      next hge => rw [if_neg hge]; rfl
  | some held => exact h _ _ hheld

theorem Keyed.foldl_touchPair (abs : List (Observation K K × Observation K K)) (h : Keyed pairs) :
    Keyed (abs.foldl (Fusion.touchPair m cfg anchor now) pairs) := by
  induction abs generalizing pairs with
  | nil => exact h
  | cons ab rest ih => exact ih (h.touchPair ab)

theorem lookup_foldl_touchPair_of_not_mem {abs : List (Observation K K × Observation K K)}
    (h : key ∉ touchedKeys abs) (pairs : PairTable K) :
    (abs.foldl (touchPair m cfg anchor now) pairs).lookup key = pairs.lookup key := by
  induction abs generalizing pairs with
  | nil => rfl
  | cons ab rest ih =>
    simp only [touchedKeys, mem_dedup, map_cons, mem_cons, not_or] at h ih
    rw [foldl_cons, ih h.2, touchPair, AList.lookup_insert_ne h.1]

theorem lookup_foldl_touchPair_of_mem {abs : List (Observation K K × Observation K K)}
    (h : key ∈ touchedKeys abs) (pairs : PairTable K) :
    ∃ po, (abs.foldl (touchPair m cfg anchor now) pairs).lookup key = some po ∧
      po.lastUpdate = now := by
  induction abs using reverseRecOn with
  | nil => simp [touchedKeys] at h
  | append_singleton rest ab ih =>
    rw [foldl_append, foldl_cons, foldl_nil, touchPair]
    by_cases hkey : key = pairKey ab.1.station ab.2.station
    · subst hkey
      exact ⟨_, AList.lookup_insert _, rfl⟩
    · rw [AList.lookup_insert_ne hkey]
      refine ih ?_
      simpa [touchedKeys, hkey] using h

/-! ## What the store knows of the pairs -/

structure Shows (cfg : ClockSyncConfig K) (po : PairOffset K) (snap : PairSnapshotRecord K) :
    Prop where
  median : snap.medianNs = po.medianNs
  status : snap.statusAtSnapshot = pairStatusNow cfg po.lastUpdate po
  maxAge : snap.maxAgeS = cfg.maxAgeS

/-- Every held pair is under its own key, and its last snapshot shows it. -/
structure Mirrored (σ : FusionState K) : Prop where
  keyed : Keyed σ.clockSync.pairs
  shown : ∀ key po, σ.clockSync.pairs.lookup key = some po →
    ∃ snap, lastWritten σ.store key = some snap ∧ Shows σ.clockSync.config po snap

theorem pairKey_of_snapshotOf {rec : PairSnapshotRecord K}
    (h : snapshotOf cfg now snapshotTimeNs pairs key = some rec) : rec.pairKey = key := by
  obtain ⟨po, -, rfl⟩ := Option.map_eq_some_iff.mp h
  rfl

theorem shown_after_snapshots (hmem : key ∈ keys) (hlookup : pairs.lookup key = some po)
    (hnow : po.lastUpdate = now) (store : SnapshotStore K) :
    ∃ snap, lastWritten ((keys.filterMap (snapshotOf cfg now snapshotTimeNs pairs)).foldl
      writePairSnapshot store) key = some snap ∧ Shows cfg po snap := by
  obtain ⟨snap, hsnap⟩ : ∃ snap, snapshotOf cfg now snapshotTimeNs pairs key = some snap := by
    rw [snapshotOf, hlookup]
    exact ⟨_, rfl⟩
  have hkey := pairKey_of_snapshotOf hsnap
  refine ⟨snap, ?_, ?_⟩
  · rw [← hkey]
    refine lastWritten_writes_of_mem (mem_filterMap.mpr ⟨key, hmem, hsnap⟩) ?_
    intro r hr hsame
    obtain ⟨k, -, hk⟩ := mem_filterMap.mp hr
    rw [hkey, pairKey_of_snapshotOf hk] at hsame
    rw [hsame, hsnap] at hk
    exact (Option.some.inj hk).symm
  · rw [snapshotOf, hlookup] at hsnap
    obtain rfl := Option.some.inj hsnap
    exact ⟨rfl, by rw [hnow], rfl⟩

theorem lastWritten_snapshots_of_not_mem (h : key ∉ keys) (store : SnapshotStore K) :
    lastWritten ((keys.filterMap (snapshotOf cfg now snapshotTimeNs pairs)).foldl
      writePairSnapshot store) key = lastWritten store key := by
  refine lastWritten_writes_of_forall_ne fun r hr heq => ?_
  obtain ⟨k, hk, hsnap⟩ := mem_filterMap.mp hr
  rw [pairKey_of_snapshotOf hsnap] at heq
  exact h (heq ▸ hk)

omit [FloorRing K] in
theorem latestLock_filtered_ne_zero {last : List Byte → K} {os : List (Observation K K)}
    (hlocks : ∀ o ∈ os, 0 ≤ o.preambleLockTNs)
    (hmany : ¬ (clockGuard last (os.filter (usableForSync cfg))).filtered.length < 2) :
    latestLock (clockGuard last (os.filter (usableForSync cfg))).filtered ≠ 0 := by
  obtain ⟨o, ho⟩ : ∃ o, o ∈ (clockGuard last (os.filter (usableForSync cfg))).filtered :=
    exists_mem_of_length_pos (by omega)
  have hfilter := mem_filter.mp ((filtered_clockGuard_sublist last _).subset ho)
  have hset : o.preambleLockTNs ≠ 0 := by
    have := hfilter.2
    simp only [usableForSync, Bool.and_eq_true, Bool.not_eq_true', decide_eq_false_iff_not] at this
    exact this.1
  have hpos : 0 < o.preambleLockTNs := lt_of_le_of_ne (hlocks o hfilter.1) (Ne.symm hset)
  exact (hpos.trans_le (lock_le_latestLock ho)).ne'

theorem Mirrored.flush (h : Mirrored σ) {feed : Int × Cluster K K}
    (hlocks : ∀ o ∈ feed.2.observations, 0 ≤ o.preambleLockTNs) : Mirrored (σ.flush m feed).1 := by
  rw [FusionState.flush, ClockSync.feedCluster]
  split
  · exact h
  cases hanchor : σ.clockSync.anchors.lookup feed.2.frame.fromId with
  | none => exact h
  | some anchor =>
    dsimp only
    split
    · exact h
    split
    · -- only pairs were dropped
      exact ⟨fun key po hpo => h.keyed key po (lookup_of_lookup_dropStations hpo),
        fun key po hpo => h.shown key po (lookup_of_lookup_dropStations hpo)⟩
    next hmany =>
      rw [if_neg (latestLock_filtered_ne_zero hlocks hmany)]
      refine ⟨Keyed.foldl_touchPair _ fun key po hpo =>
        h.keyed key po (lookup_of_lookup_dropStations hpo), fun key po hpo => ?_⟩
      by_cases htouched : key ∈ touchedKeys (pairsOf
          (clockGuard σ.clockSync.lastAnchorObsNs
            (feed.2.observations.filter (usableForSync σ.clockSync.config))).filtered)
      · obtain ⟨po', hpo', hnow⟩ := lookup_foldl_touchPair_of_mem htouched _
        obtain rfl := Option.some.inj (hpo'.symm.trans hpo)
        exact shown_after_snapshots htouched hpo hnow σ.store
      · rw [lookup_foldl_touchPair_of_not_mem htouched] at hpo
        rw [lastWritten_snapshots_of_not_mem htouched]
        exact h.shown key po (lookup_of_lookup_dropStations hpo)

theorem Mirrored.run (feeds : List (Int × Cluster K K)) (h : Mirrored σ)
    (hlocks : ∀ feed ∈ feeds, ∀ o ∈ feed.2.observations, 0 ≤ o.preambleLockTNs) :
    Mirrored (σ.flushAll m feeds) := by
  induction feeds generalizing σ with
  | nil => exact h
  | cons feed rest ih =>
    exact ih (h.flush (hlocks feed mem_cons_self))
      fun feed' hfeed' => hlocks feed' (mem_cons_of_mem _ hfeed')

/-! ## The two choices of a reference -/

theorem smallestName_mem {names : List (List Byte)} (h : names ≠ []) :
    smallestName names ∈ names := by
  have hfold : ∀ (rest : List (List Byte)) (least : List Byte),
      rest.foldl (fun least n => if n < least then n else least) least ∈ least :: rest := by
    intro rest
    induction rest with
    | nil => exact fun least => mem_cons_self
    | cons n rest ih =>
      intro least
      rw [foldl_cons]
      rcases mem_cons.mp (ih (if n < least then n else least)) with hhead | hrest
      · rw [hhead]
        split <;> simp
      · exact mem_cons_of_mem _ (mem_cons_of_mem _ hrest)
  cases names with
  | nil => exact absurd rfl h
  | cons name rest => exact hfold rest name

theorem pickStep_cases (cfg : ClockSyncConfig K) (now : Int) (ref : List Byte)
    (po : PairOffset K) :
    pickStep cfg now ref po = ref ∨
      ((po.a = pickStep cfg now ref po ∨ po.b = pickStep cfg now ref po) ∧
        pairStatusNow cfg now po = .converged) := by
  rw [pickStep]
  split
  · exact .inl rfl
  next hstatus =>
    rw [foldl_cons, foldl_cons, foldl_nil]
    by_cases hfirst : ref = [] ∨ po.a < ref
    · rw [if_pos hfirst]
      refine .inr ⟨?_, not_not.mp hstatus⟩
      split
      · exact .inr rfl
      · exact .inl rfl
    · rw [if_neg hfirst]
      split
      · exact .inr ⟨.inr rfl, not_not.mp hstatus⟩
      · exact .inl rfl

theorem stationHasConvergedPair_pick {cs : ClockSync K} (h : cs.pickReferenceStation now ≠ []) :
    cs.stationHasConvergedPair now (cs.pickReferenceStation now) = true := by
  have hfold : ∀ entries : List ((_ : List Byte) × PairOffset K),
      entries.foldl (fun ref e => pickStep cs.config now ref e.2) [] = [] ∨
      ∃ e ∈ entries,
        (e.2.a = entries.foldl (fun ref e => pickStep cs.config now ref e.2) [] ∨
          e.2.b = entries.foldl (fun ref e => pickStep cs.config now ref e.2) []) ∧
        pairStatusNow cs.config now e.2 = .converged := by
    intro entries
    induction entries using reverseRecOn with
    | nil => exact .inl rfl
    | append_singleton rest e ih =>
      rw [foldl_append, foldl_cons, foldl_nil]
      rcases pickStep_cases cs.config now
          (rest.foldl (fun ref e => pickStep cs.config now ref e.2) []) e.2 with hsame | hnew
      · rw [hsame]
        rcases ih with hnone | ⟨e', he', hnames⟩
        · exact .inl hnone
        · exact .inr ⟨e', mem_append_left _ he', hnames⟩
      · exact .inr ⟨e, by simp, hnew⟩
  rcases hfold cs.pairs.entries with hnone | ⟨e, he, hnames, hstatus⟩
  · exact absurd hnone h
  · rw [ClockSync.stationHasConvergedPair, any_eq_true]
    refine ⟨e, he, ?_⟩
    rw [Bool.and_eq_true, Bool.or_eq_true, beq_iff_eq, beq_iff_eq, decide_eq_true_eq]
    exact ⟨hnames, hstatus⟩

/-! ## The two readings of a pair key -/

theorem halves_of_barFree {x y : List Byte} (hx : 124#8 ∉ x) (hy : 124#8 ∉ y)
    (h : x ++ ascii "|" ++ y = a ++ ascii "|" ++ b) : a = x ∧ b = y := by
  have hbar : (ascii "|").count 124#8 = 1 := by decide
  have hcount := congrArg (count 124#8) h
  simp only [count_append, hbar, count_eq_zero_of_not_mem hx,
    count_eq_zero_of_not_mem hy] at hcount
  have hb : 124#8 ∉ b := count_eq_zero.mp (by omega)
  obtain ⟨ha, hb⟩ := joined_inj hy hb h
  exact ⟨ha.symm, hb.symm⟩

theorem fst_pairKeyEndpoints (ha : 124#8 ∉ a) (hb : b ≠ []) :
    ((pairKeyEndpoints (a ++ ascii "|" ++ b)).map Prod.fst).getD [] = a := by
  have hbar : ascii "|" = [124#8] := by decide
  have hlength := length_pos_of_ne_nil hb
  have hidx : (a ++ ascii "|" ++ b).idxOf 124#8 = a.length := by
    rw [hbar, append_assoc, idxOf_append_of_notMem ha]
    simp
  rw [pairKeyEndpoints, hidx]
  split
  next hrefused =>
    rcases hrefused with hempty | hshort
    · exact (eq_nil_of_length_eq_zero hempty).symm
    · rw [hbar] at hshort
      simp only [length_append, length_singleton] at hshort
      omega
  next => simp

/-! ## The two solves -/

theorem pairStatusNow_eq_converged_iff : pairStatusNow cfg now po = .converged ↔
      po.anchorEvents ≠ 0 ∧ cfg.minAnchorEvents ≤ po.samples.length ∧ po.madNs ≤ cfg.maxMadNs ∧
        now - cfg.maxAge ≤ po.lastUpdate := by
  rw [pairStatusNow]
  split
  next hnone => simp [hnone]
  split
  next hwarming => simp [hwarming]
  split
  next hrejected => simp [hrejected]
  split
  next hstale =>
    simp only [reduceCtorEq, false_iff]
    rintro ⟨-, -, -, hage⟩
    omega
  next hevents hsamples hmad hage =>
    simp [hevents, not_lt.mp hsamples, not_lt.mp hmad, not_lt.mp hage]

/-- The store answers for the pair as the memory did: its latest snapshot at the event is the one
written last, the pair was not reset after it, and it is as fresh by event time as the pair was by
the clock. -/
structure SnapshotCurrent (σ : FusionState K) (store : SnapshotStore K) (now : Int)
    (eventTimeNs : K) (key : List Byte) : Prop where
  latest : latestPairSnapshotAtOrBefore store eventTimeNs key = lastWritten σ.store key
  held : ∀ snap, lastWritten σ.store key = some snap → key ∈ σ.clockSync.pairs
  fresh : ∀ po snap, σ.clockSync.pairs.lookup key = some po → lastWritten σ.store key = some snap →
    (snap.freshAt eventTimeNs ↔ now - σ.clockSync.config.maxAge ≤ po.lastUpdate)

variable [IsStrictOrderedRing K]

theorem Shows.applied_iff {snap : PairSnapshotRecord K} (h : Shows cfg po snap)
    (hfresh : snap.freshAt eventTimeNs ↔ now - cfg.maxAge ≤ po.lastUpdate) :
    (snap.statusAtSnapshot = .converged ∧ snap.freshAt eventTimeNs) ↔
      pairStatusNow cfg now po = .converged := by
  rw [h.status, pairStatusNow_eq_converged_iff, pairStatusNow_eq_converged_iff, ← hfresh]
  constructor
  · rintro ⟨⟨hevents, hsamples, hmad, -⟩, hage⟩
    exact ⟨hevents, hsamples, hmad, hage⟩
  · rintro ⟨hevents, hsamples, hmad, hage⟩
    -- an event age within the limit makes the limit non-negative
    have hlimit : (0 : K) ≤ ((cfg.maxAge : Int) : K) := by
      have := hage.1.trans hage.2
      rwa [h.maxAge] at this
    have hmaxAge : 0 ≤ cfg.maxAge := by exact_mod_cast hlimit
    exact ⟨⟨hevents, hsamples, hmad, by omega⟩, hage⟩

theorem Mirrored.replayTimestamp_eq (h : Mirrored σ) {ref : List Byte}
    (hpick : σ.clockSync.pickReferenceStation now = ref) (hnamed : ref ≠ [])
    {store : SnapshotStore K} {o : Observation K K} (ho : 124#8 ∉ o.station) (href : 124#8 ∉ ref)
    (hcurrent : o.preambleLockTNs ≠ 0 → o.station ≠ ref → SnapshotCurrent σ store now eventTimeNs (pairKey o.station ref)) :
    (replayTimestamp store eventTimeNs ref o).1 = σ.clockSync.correctAndClassify now o ref := by
  rw [replayTimestamp, ClockSync.correctAndClassify]
  split
  · rfl
  next hlock =>
    by_cases hown : o.station = ref
    · rw [if_pos hown, if_pos (.inr hown.symm), hown, ← hpick,
        if_pos (stationHasConvergedPair_pick (by rw [hpick]; exact hnamed))]
    rw [if_neg hown, if_neg (by simp [hnamed, Ne.symm hown])]
    have hcur := hcurrent hlock hown
    dsimp only
    rw [hcur.latest]
    cases hlookup : σ.clockSync.pairs.lookup (pairKey o.station ref) with
    | none =>
      cases hwritten : lastWritten σ.store (pairKey o.station ref) with
      | none => rfl
      | some snap => exact absurd (hcur.held snap hwritten) (AList.lookup_eq_none.mp hlookup)
    | some po =>
      obtain ⟨snap, hwritten, hshows⟩ := h.shown _ _ hlookup
      have happlied := hshows.applied_iff (hcur.fresh po snap hlookup hwritten)
      rw [hwritten]
      dsimp only
      by_cases hconverged : pairStatusNow σ.clockSync.config now po = .converged
      · rw [if_pos (happlied.mpr hconverged), if_neg (not_not.mpr hconverged), hshows.median]
        have hkey := h.keyed _ _ hlookup
        rcases pairKey_cases hown with ⟨hlt, hjoined⟩ | ⟨hlt, hjoined⟩
        · obtain ⟨ha, hb⟩ := halves_of_barFree ho href (hjoined.symm.trans hkey)
          rw [hjoined, fst_pairKeyEndpoints ho hnamed, ha, hb]
          simp
        · obtain ⟨ha, hb⟩ := halves_of_barFree href ho (hjoined.symm.trans hkey)
          have hne : o.station ≠ [] := by
            intro hempty
            rw [hempty] at hlt
            exact absurd hlt (not_lt_nil _)
          rw [hjoined, fst_pairKeyEndpoints href hne, ha, hb]
          simp [hown]
      · rw [if_neg (fun hcon => hconverged (happlied.mp hcon)), if_pos hconverged]

def startFusion (cfg : ClockSyncConfig K) (anchors : List (AnchorNode K)) : FusionState K where
  clockSync := declareAnchors (newClockSync cfg) anchors
  store := []

omit [IsStrictOrderedRing K] in
theorem mirrored_startFusion (cfg : ClockSyncConfig K) (anchors : List (AnchorNode K)) :
    Mirrored (startFusion cfg anchors) := by
  have hpairs := (declareAnchors_settings anchors (newClockSync cfg)).2
  have hempty : ∀ key po, (startFusion cfg anchors).clockSync.pairs.lookup key ≠ some po := by
    intro key po
    rw [startFusion, hpairs]
    exact fun hlookup => nomatch hlookup
  exact ⟨fun key po hpo => absurd hpo (hempty key po),
    fun key po hpo => absurd hpo (hempty key po)⟩

/-- **Replay.** After any run of flushes, a cluster solved live is given to the solver again with
the same reference, timestamps and classes, provided both sides choose one reference and the store
answers for its pairs as the memory did. -/
theorem replay_reproduces_live (m : MathFns K) (cfg : ClockSyncConfig K)
    (anchors : List (AnchorNode K)) (before after : List (Int × Cluster K K)) (now : Int)
    (c : Cluster K K)
    (hlocks : ∀ feed ∈ before ++ [(now, c)], ∀ o ∈ feed.2.observations, 0 ≤ o.preambleLockTNs)
    (hnames : ∀ o ∈ c.observations, 124#8 ∉ o.station)
    (live : List Byte × List (MlatObservation K))
    (hlive : (((startFusion cfg anchors).flushAll m before).flush m (now, c)).2 = some live)
    (hnamed : live.1 ≠ [])
    (hsmallest : live.1 = smallestStation (c.observations.filter usableForSolve))
    (hcurrent : ∀ o ∈ c.observations.filter usableForSolve, o.preambleLockTNs ≠ 0 →
      o.station ≠ live.1 →
      SnapshotCurrent (((startFusion cfg anchors).flushAll m before).flush m (now, c)).1
        ((startFusion cfg anchors).flushAll m (before ++ (now, c) :: after)).store now
        (toClusterObservationRecord c).clusterTimeNs (pairKey o.station live.1)) :
    (resolveAtEventTime ((startFusion cfg anchors).flushAll m (before ++ (now, c) :: after)).store
        (toClusterObservationRecord c)).map (fun r => (r.refStation, r.observations)) =
      .ok live := by
  have hmirrored : Mirrored (((startFusion cfg anchors).flushAll m before).flush m (now, c)).1 := by
    have := (mirrored_startFusion cfg anchors).run (m := m) (before ++ [(now, c)]) hlocks
    rwa [FusionState.flushAll, foldl_append] at this
  -- the live solve took place, so the cluster is no anchor's and has three usable stations
  rw [FusionState.flush] at hlive
  split at hlive
  · cases hlive
  rw [ClockSync.tryGeolocate] at hlive
  split at hlive
  · cases hlive
  next hmany =>
    obtain rfl := Option.some.inj hlive
    have hmem : smallestStation (c.observations.filter usableForSolve) ∈
        (c.observations.filter usableForSolve).map (·.station) :=
      smallestName_mem (by
        intro hnil
        rw [map_eq_nil_iff.mp hnil] at hmany
        exact hmany (by simp))
    obtain ⟨first, hfirst, hstation⟩ := mem_map.mp hmem
    have hbar : 124#8 ∉ smallestStation (c.observations.filter usableForSolve) := by
      rw [← hstation]
      exact hnames first (mem_filter.mp hfirst).1
    rw [resolveAtEventTime]
    dsimp only at hsmallest hnamed hcurrent ⊢
    rw [show (toClusterObservationRecord c).observations = c.observations from rfl, if_neg hmany]
    simp only [Except.map, Except.ok.injEq, Prod.mk.injEq]
    refine ⟨hsmallest.symm, map_congr_left fun o ho => ?_⟩
    rw [ClockSync.liveObservation, if_pos hnamed]
    rw [hsmallest] at hnamed hcurrent
    rw [hmirrored.replayTimestamp_eq hsmallest hnamed (hnames o (mem_filter.mp ho).1) hbar
      (hcurrent o ho), hsmallest]
    rfl

end Mirror

/-! ## Runs of the two solves -/

def locatedAt (station : List Byte) (lock : ℚ) : Observation ℚ ℚ :=
  ⟨station, 1, 1, 0, 50, 0, lock, 5, -90, 0⟩

def calibration (observations : List (Observation ℚ ℚ)) : Cluster ℚ ℚ := beaconCluster observations

def target (observations : List (Observation ℚ ℚ)) : Cluster ℚ ℚ :=
  { beaconCluster observations with
    frame := ⟨ascii "packet", [], 0, 0, 0, 0, 0, 0, ascii "!00000001", 2, 0, 0⟩ }

def firstCalibration : Cluster ℚ ℚ :=
  calibration [locatedAt (ascii "a") 1000, locatedAt (ascii "b") 1005, locatedAt (ascii "c") 1008]

def laterTarget : Cluster ℚ ℚ :=
  target [locatedAt (ascii "a") 2000, locatedAt (ascii "b") 2005, locatedAt (ascii "c") 2008]

def quickFusion : FusionState ℚ := startFusion (quickConfig 600) [⟨beacon.nodeId, 1, 1⟩]

theorem snapshotCurrent_of_held {K : Type*} [Field K] [LinearOrder K] [FloorRing K]
    {σ : FusionState K} {store : SnapshotStore K} {now : Int} {eventTimeNs : K} {key : List Byte}
    (po : PairOffset K) (snap : PairSnapshotRecord K)
    (hlookup : σ.clockSync.pairs.lookup key = some po) (hlast : lastWritten σ.store key = some snap)
    (hlatest : latestPairSnapshotAtOrBefore store eventTimeNs key = some snap)
    (hfresh : snap.freshAt eventTimeNs ↔ now - σ.clockSync.config.maxAge ≤ po.lastUpdate) :
    SnapshotCurrent σ store now eventTimeNs key where
  latest := hlatest.trans hlast.symm
  held := fun _ _ => AList.lookup_isSome.mp (by rw [hlookup]; rfl)
  fresh := by
    intro po' snap' hpo' hsnap'
    obtain rfl := Option.some.inj (hlookup.symm.trans hpo')
    obtain rfl := Option.some.inj (hlast.symm.trans hsnap')
    exact hfresh

theorem replay_reproduces_live_laterTarget :
    (resolveAtEventTime
        (quickFusion.flushAll atOnePlace [(1, firstCalibration), (2, laterTarget)]).store
        (toClusterObservationRecord laterTarget)).map (fun r => (r.refStation, r.observations)) =
      .ok (ascii "a", [⟨ascii "a", 1, 1, 0, 50, 2000, 0, some .sync⟩,
        ⟨ascii "b", 1, 1, 0, 50, 2000, 0, some .sync⟩,
        ⟨ascii "c", 1, 1, 0, 50, 2000, 0, some .sync⟩]) := by
  refine replay_reproduces_live atOnePlace (quickConfig 600) [⟨beacon.nodeId, 1, 1⟩]
    [(1, firstCalibration)] [] 2 laterTarget (by decide +kernel) (by decide) _ (by decide +kernel)
    (by decide) (by decide +kernel) fun o ho _ hother => ?_
  have hobs : o.station = ascii "a" ∨ o.station = ascii "b" ∨ o.station = ascii "c" := by
    have := (mem_filter.mp ho).1
    simp only [laterTarget, target, beaconCluster, mem_cons, not_mem_nil,
      or_false] at this
    rcases this with rfl | rfl | rfl
    · exact .inl rfl
    · exact .inr (.inl rfl)
    · exact .inr (.inr rfl)
  rcases hobs with ha | hb | hc
  · exact absurd ha hother
  · rw [hb]
    exact snapshotCurrent_of_held ⟨ascii "a", ascii "b", [5], [1], 5, 0, 1, 1⟩
      ⟨ascii "a|b", 1008, 1, 5, 0, 1, .converged, 600⟩ (by decide +kernel)
      (by decide +kernel) (by decide +kernel) (by decide +kernel)
  · rw [hc]
    exact snapshotCurrent_of_held ⟨ascii "a", ascii "c", [8], [1], 8, 0, 1, 1⟩
      ⟨ascii "a|c", 1008, 1, 8, 0, 1, .converged, 600⟩ (by decide +kernel)
      (by decide +kernel) (by decide +kernel) (by decide +kernel)

/-- A reference with the timestamp and class of every observation. -/
structure Stamps where
  refStation : List Byte
  stamps : List (ℚ × Option TimestampClass)
  deriving DecidableEq

def stampsOf (refStation : List Byte) (observations : List (MlatObservation ℚ)) : Stamps :=
  ⟨refStation, observations.map fun o => (o.lockTNs, o.precomputedClass)⟩

def bothSolves (before : List (Int × Cluster ℚ ℚ)) (now : Int) (c : Cluster ℚ ℚ) :
    Option Stamps × Option Stamps :=
  let flushed := (quickFusion.flushAll atOnePlace before).flush atOnePlace (now, c)
  (flushed.2.map fun live => stampsOf live.1 live.2,
    (resolveAtEventTime flushed.1.store (toClusterObservationRecord c)).toOption.map fun r =>
      stampsOf r.refStation r.observations)

/-- The two solves differ where no pair has converged; where the smallest converged
station did not hear the cluster; where a clock step reset a pair whose snapshot stays;
where the event precedes the snapshot; where the pair is stale by the clock but not by
event time; and where names with a bar make two orders of a pair one key. -/
theorem replay_differs :
    bothSolves [] 2 laterTarget =
      (some ⟨[], [(2000, none), (2005, none), (2008, none)]⟩,
        some ⟨ascii "a", [(2000, some .sync), (2005, some .softwareLock),
          (2008, some .softwareLock)]⟩) ∧
    bothSolves [(1, firstCalibration)] 2
        (target [locatedAt (ascii "b") 2005, locatedAt (ascii "c") 2008,
          locatedAt (ascii "d") 2000]) =
      (some ⟨ascii "a", [(2000, some .sync), (2000, some .sync), (2000, some .softwareLock)]⟩,
        some ⟨ascii "b", [(2005, some .sync), (2005, some .sync), (2000, some .softwareLock)]⟩) ∧
    bothSolves
        [(1, calibration [locatedAt (ascii "a") 5000000, locatedAt (ascii "b") 5000005,
          locatedAt (ascii "c") 5000008]),
          (2, calibration [locatedAt (ascii "a") 5000010, locatedAt (ascii "b") 5000015,
            locatedAt (ascii "c") 18])] 3
        (target [locatedAt (ascii "a") 6000000, locatedAt (ascii "b") 6000005,
          locatedAt (ascii "c") 1000008]) =
      (some ⟨ascii "a", [(6000000, some .sync), (6000000, some .sync),
          (1000008, some .softwareLock)]⟩,
        some ⟨ascii "a", [(6000000, some .sync), (6000000, some .sync),
          (1000000, some .sync)]⟩) ∧
    bothSolves [(1, firstCalibration)] 2
        (target [locatedAt (ascii "a") 500, locatedAt (ascii "b") 505, locatedAt (ascii "c") 508]) =
      (some ⟨ascii "a", [(500, some .sync), (500, some .sync), (500, some .sync)]⟩,
        some ⟨ascii "a", [(500, some .sync), (505, some .softwareLock),
          (508, some .softwareLock)]⟩) ∧
    bothSolves
        [(1, firstCalibration),
          (600000000002, calibration [locatedAt (ascii "a") 1500, locatedAt (ascii "b") 1505])]
        600000000003 laterTarget =
      (some ⟨ascii "a", [(2000, some .sync), (2000, some .sync), (2008, some .softwareLock)]⟩,
        some ⟨ascii "a", [(2000, some .sync), (2000, some .sync), (2000, some .sync)]⟩) ∧
    bothSolves
        [(1, calibration [locatedAt (ascii "a|a") 1005, locatedAt (ascii "a") 1000])] 2
        (target [locatedAt (ascii "a") 2000, locatedAt (ascii "a|a") 2005,
          locatedAt (ascii "b") 2008]) =
      (some ⟨ascii "a", [(2000, some .sync), (2000, some .sync), (2008, some .softwareLock)]⟩,
        some ⟨ascii "a", [(2000, some .sync), (2010, some .sync), (2008, some .softwareLock)]⟩) := by
  refine ⟨?_, ?_, ?_, ?_, ?_, ?_⟩ <;> decide +kernel

end MeshcoreSniffer.Fusion
