import MeshcoreSniffer.Fusion.Clusters
import MeshcoreSniffer.Lib.Runs
import Mathlib.Data.Prod.Lex

/-!
# The evidence of a cluster

The event loop of `fusion/main.go` with its flushes to the `cluster_observations` bucket. Each
cluster carries the observations merged into it (`Sound`), and the loop the clusters it has flushed.
-/

namespace MeshcoreSniffer.Fusion.Evidence

open Lib Lib.Printf Lib.Runs List Function

/-! ## Records -/

structure ClusterObservationStation (F : Type*) where
  station : List Byte
  stationLat : F
  stationLon : F
  stationAltM : F
  stationTNs : ℕ
  stationTAccNs : ℕ
  preambleLockTNs : ℕ
  snrDb : F
  rssiDb : F
  deriving DecidableEq

/-- `ClusterObservationRecord`, without the radio parameters of its frame. -/
structure ClusterObservationRecord (F : Type*) where
  fromId : List Byte
  packetId : ℕ
  emissionSeq : ℕ
  clusterTimeNs : BitVec 64
  firstSeenWallNs : BitVec 64
  lowTrust : Bool
  stationDupesSuppressed : ℕ
  observations : List (ClusterObservationStation F)
  deriving DecidableEq

section Model

variable {F : Type*}

def stationRow (o : Observation ℕ F) : ClusterObservationStation F :=
  ⟨o.station, o.stationLat, o.stationLon, o.stationAltM, o.stationTNs, o.stationTAccNs,
    o.preambleLockTNs, o.snrDb, o.rssiDb⟩

def unixNano (t : Int) : BitVec 64 := BitVec.ofInt 64 t

def latestLockTNs (os : List (Observation ℕ F)) : ℕ :=
  os.foldl (fun t o => if t < o.preambleLockTNs then o.preambleLockTNs else t) 0

def toClusterObservationRecord (c : Cluster ℕ F) : ClusterObservationRecord F where
  fromId := c.frame.fromId
  packetId := c.frame.packetId
  emissionSeq := c.emissionSeq
  clusterTimeNs :=
    if latestLockTNs c.observations = 0 then unixNano c.firstSeen
    else BitVec.ofNat 64 (latestLockTNs c.observations)
  firstSeenWallNs := unixNano c.firstSeen
  lowTrust := c.lowTrust
  stationDupesSuppressed := c.stationDupesSuppressed
  observations := c.observations.map stationRow

/-- The `EventTimeNs` that `tryGeolocate` gives a solved fix. -/
def eventTimeNs (c : Cluster ℕ F) : BitVec 64 :=
  if c.maxPreambleLockTNs = 0 then unixNano c.firstSeen else BitVec.ofNat 64 c.maxPreambleLockTNs

def putUint64 (t : BitVec 64) : List Byte :=
  [56, 48, 40, 32, 24, 16, 8, 0].map fun shift => t.extractLsb' shift 8

def clusterObsKey (clusterTimeNs : BitVec 64) (fromId : List Byte) (packetId : ℕ) : List Byte :=
  putUint64 clusterTimeNs ++ ascii "|" ++ fromId ++ ascii "|" ++ decimal packetId

def ClusterObservationRecord.key (r : ClusterObservationRecord F) : List Byte :=
  clusterObsKey r.clusterTimeNs r.fromId r.packetId

/-- A row with the key is replaced. The bucket is the list of its rows. -/
def writeClusterObservation (rows : List (ClusterObservationRecord F))
    (rec : ClusterObservationRecord F) : List (ClusterObservationRecord F) :=
  rows.filter (·.key ≠ rec.key) ++ [rec]

def readClusterObservationsRange (rows : List (ClusterObservationRecord F))
    (startNs endNs : BitVec 64) : List (ClusterObservationRecord F) :=
  rows.filter fun r => startNs ≤ r.clusterTimeNs ∧ r.clusterTimeNs ≤ endNs

def findClusterObservation (rows : List (ClusterObservationRecord F)) (eventTimeNs : BitVec 64)
    (fromId : List Byte) (packetId emissionSeq : ℕ) : Option (ClusterObservationRecord F) :=
  (readClusterObservationsRange rows eventTimeNs eventTimeNs).find? fun r =>
    r.fromId = fromId ∧ r.packetId = packetId ∧ r.emissionSeq = emissionSeq

/-! ## The loop -/

/-- A cluster and the observations merged into it, the first one first. -/
structure Tracked (F : Type*) where
  cluster : Cluster ℕ F
  merged : List (Observation ℕ F)

/-- `pending`, `nextEmissionSeq` and the bucket; `flushed` is the history. -/
structure Loop (F : Type*) where
  pending : List Byte → List (Tracked F) := fun _ => []
  nextEmissionSeq : List Byte → ℕ := fun _ => 0
  store : List (ClusterObservationRecord F) := []
  flushed : List (Tracked F) := []

/-- A frame at a wall-clock time, or the ticker; the keys are those of `pending` as the map is
walked. -/
inductive Event (F : Type*)
  | frame (f : Frame ℕ F) (now : Int)
  | tick (now : Int) (keys : List (List Byte))

variable [LinearOrder F] (sameEmissionNs : ℕ) (window : Int)
  (sortByFirstSeen : List (Tracked F) → List (Tracked F))

def Loop.frame (s : Loop F) (f : Frame ℕ F) (now : Int) : Loop F :=
  if f.event ≠ [] ∨ f.fromId = [] ∨ f.packetId = 0 then s
  else
    let baseKey := clusterKey f.fromId f.packetId
    let obs := f.observation now
    match pickCluster ((s.pending baseKey).map Tracked.cluster) f sameEmissionNs with
    | some i =>
      { s with pending := Function.update s.pending baseKey ((s.pending baseKey).modify i fun t =>
          ⟨f.joinCluster now t.cluster, t.merged ++ [obs]⟩) }
    | none =>
      { s with
        pending := Function.update s.pending baseKey (s.pending baseKey ++
          [⟨(f.newCluster (s.nextEmissionSeq baseKey) now).mergeObservation obs, [obs]⟩])
        nextEmissionSeq :=
          Function.update s.nextEmissionSeq baseKey (s.nextEmissionSeq baseKey + 1) }

def Loop.ready (s : Loop F) (now : Int) (keys : List (List Byte)) : List (Tracked F) :=
  sortByFirstSeen (keys.dedup.flatMap fun k =>
    (s.pending k).filter fun t => window < now - t.cluster.firstSeen)

def Loop.tick (s : Loop F) (now : Int) (keys : List (List Byte)) : Loop F :=
  let ready := s.ready window sortByFirstSeen now keys
  { s with
    pending := fun k =>
      if k ∈ keys then (s.pending k).filter fun t => ¬window < now - t.cluster.firstSeen
      else s.pending k
    store := (ready.map fun t => toClusterObservationRecord t.cluster).foldl
      writeClusterObservation s.store
    flushed := s.flushed ++ ready }

def Loop.step (s : Loop F) : Event F → Loop F
  | .frame f now => s.frame sameEmissionNs f now
  | .tick now keys => s.tick window sortByFirstSeen now keys

end Model

/-! ## Clusters -/

section Clusters

variable {F : Type*} [LinearOrder F] {w : ℕ} {t : Tracked F} {o obs : Observation ℕ F}

def Best (o : Observation ℕ F) (os : List (Observation ℕ F)) : Prop :=
  ∃ before after, os = before ++ o :: after ∧ (∀ m ∈ before, betterObservation o m = true) ∧
    ∀ m ∈ after, betterObservation m o = false

def rank (o : Observation ℕ F) : ℕ ×ₗ F := toLex (observationClass o, o.snrDb)

theorem betterObservation_iff (a b : Observation ℕ F) :
    betterObservation a b = true ↔ rank b < rank a := by
  rw [rank, rank, Prod.Lex.toLex_lt_toLex, betterObservation]
  by_cases hclass : observationClass a = observationClass b
  · simp [hclass]
  · simp [hclass, Ne.symm hclass]

theorem Best.snoc {os : List (Observation ℕ F)} (h : Best o os) (obs : Observation ℕ F) :
    Best (if betterObservation obs o then obs else o) (os ++ [obs]) := by
  obtain ⟨before, after, rfl, hbefore, hafter⟩ := h
  by_cases hbetter : betterObservation obs o = true
  · rw [if_pos hbetter]
    refine ⟨before ++ o :: after, [], rfl, fun m hm => ?_, fun _ hm => absurd hm not_mem_nil⟩
    rw [betterObservation_iff] at hbetter ⊢
    rcases mem_append.mp hm with hm | hm
    · exact lt_trans ((betterObservation_iff o m).mp (hbefore m hm)) hbetter
    · rcases mem_cons.mp hm with rfl | hm
      · exact hbetter
      · have hnot := hafter m hm
        rw [Bool.eq_false_iff, ne_eq, betterObservation_iff, not_lt] at hnot
        exact lt_of_le_of_lt hnot hbetter
  · rw [if_neg hbetter]
    refine ⟨before, after ++ [obs], by simp, hbefore, fun m hm => ?_⟩
    rcases mem_append.mp hm with hm | hm
    · exact hafter m hm
    · rw [mem_singleton.mp hm]
      exact Bool.eq_false_iff.mpr hbetter

/-- What holds of a cluster and the observations merged into it. -/
structure Sound (w : ℕ) (t : Tracked F) : Prop where
  stations : (t.cluster.observations.map Observation.station).Nodup
  heard : ∀ m ∈ t.merged, m.station ∈ t.cluster.observations.map Observation.station
  best : ∀ o ∈ t.cluster.observations, Best o (t.merged.filter (·.station = o.station))
  bounds : Bounded t.cluster.locks t.cluster.bounds
  spread : t.cluster.maxPreambleLockTNs - t.cluster.minPreambleLockTNs ≤ w

theorem Sound.spread_merge (h : Sound w t)
    (hjoins : obs.preambleLockTNs ≠ 0 → t.cluster.joins w obs.preambleLockTNs = true) :
    (t.cluster.mergeObservation obs).maxPreambleLockTNs -
      (t.cluster.mergeObservation obs).minPreambleLockTNs ≤ w := by
  have hspread := h.spread
  have hnew := Cluster.bounded_mergeObservation h.bounds obs
  generalize hc : t.cluster.mergeObservation obs = c at hnew
  cases hnew with
  | none _ hb =>
    obtain ⟨hlo, hhi⟩ := Prod.mk.inj hb
    omega
  | some hlo hhi =>
    have hlo0 : c.minPreambleLockTNs ≠ 0 := (mem_locksOf.mp hlo).1
    have hlo' : c.minPreambleLockTNs ∈ t.cluster.locks ∨ c.minPreambleLockTNs = obs.preambleLockTNs :=
      Cluster.mem_locks_mergeObservation (hc ▸ hlo)
    have hhi' : c.maxPreambleLockTNs ∈ t.cluster.locks ∨ c.maxPreambleLockTNs = obs.preambleLockTNs :=
      Cluster.mem_locks_mergeObservation (hc ▸ hhi)
    cases h.bounds with
    | none hnil =>
      rw [hnil] at hlo' hhi'
      rw [hlo'.resolve_left not_mem_nil, hhi'.resolve_left not_mem_nil]
      omega
    | some hold _ hall =>
      -- every lock lies between the old bounds, or is the new one
      have hmin : t.cluster.minPreambleLockTNs ≠ 0 := (mem_locksOf.mp hold).1
      have hlo'' := hlo'.imp_left (hall _)
      have hhi'' := hhi'.imp_left (hall _)
      simp only [Cluster.bounds] at hlo'' hhi''
      by_cases h0 : obs.preambleLockTNs = 0
      · omega
      · have hfits := hjoins h0
        rw [Cluster.joins, if_neg (fun hz => hmin hz.1), decide_eq_true_eq] at hfits
        split_ifs at hfits <;> omega

theorem Sound.merge (h : Sound w t)
    (hjoins : obs.preambleLockTNs ≠ 0 → t.cluster.joins w obs.preambleLockTNs = true) :
    Sound w ⟨t.cluster.mergeObservation obs, t.merged ++ [obs]⟩ := by
  have hother (o : Observation ℕ F) (hne : o.station ≠ obs.station) :
      (t.merged ++ [obs]).filter (·.station = o.station) =
        t.merged.filter (·.station = o.station) := by
    rw [filter_append, filter_cons_of_neg (by simpa using hne.symm)]
    simp
  have hbounds := Cluster.bounded_mergeObservation h.bounds obs
  have hspread := h.spread_merge hjoins
  have hnodup := h.stations
  rcases t.cluster.mergeObservation_cases obs with
    ⟨before, existing, after, hold, hstation, heq⟩ | ⟨hnone, heq⟩
  · have hkept : (if betterObservation obs existing then obs else existing).station = obs.station := by
      split
      next => rfl
      next => exact hstation
    have hmap : (t.cluster.mergeObservation obs).observations.map Observation.station =
        t.cluster.observations.map Observation.station := by
      simp [heq, hold, hkept, hstation]
    have hmem : existing ∈ t.cluster.observations := by simp [hold]
    refine ⟨hmap ▸ hnodup, fun m hm => hmap ▸ ?_, fun o ho => ?_, hbounds, hspread⟩
    · rcases mem_append.mp hm with hm | hm
      · exact h.heard m hm
      · rw [mem_singleton.mp hm, ← hstation]
        exact mem_map_of_mem hmem
    · rw [heq, mem_append, mem_cons, or_left_comm] at ho
      rcases ho with rfl | ho
      · rw [hkept, filter_append, filter_cons_of_pos (by simp), ← hstation]
        exact (h.best existing hmem).snoc obs
      · -- the other observations are of other stations
        have hne : o.station ≠ obs.station := by
          rw [hold, map_append, map_cons, nodup_middle, nodup_cons, hstation] at hnodup
          intro hsame
          exact hnodup.1 (by rw [← hsame, ← map_append]; exact mem_map_of_mem (by simpa using ho))
        rw [hother o hne]
        exact h.best o (by rw [hold, mem_append, mem_cons]; tauto)
  · have hnew : obs.station ∉ t.cluster.observations.map Observation.station := by simpa using hnone
    have hnothing : t.merged.filter (·.station = obs.station) = [] := by
      rw [filter_eq_nil_iff]
      intro m hm hsame
      exact hnew (of_decide_eq_true hsame ▸ h.heard m hm)
    refine ⟨?_, fun m hm => ?_, fun o ho => ?_, hbounds, hspread⟩
    · rw [heq, map_append, map_singleton]
      exact hnodup.append (nodup_singleton _) (disjoint_singleton.mpr hnew)
    · rw [heq, map_append, mem_append, map_singleton, mem_singleton]
      exact (mem_append.mp hm).imp (h.heard m) fun hm => by rw [mem_singleton.mp hm]
    · rw [heq, mem_append, mem_singleton] at ho
      rcases ho with ho | rfl
      · rw [hother o (hnone o ho)]
        exact h.best o ho
      · rw [filter_append, hnothing, filter_cons_of_pos (by simp)]
        exact ⟨[], [], rfl, fun _ hm => absurd hm not_mem_nil, fun _ hm => absurd hm not_mem_nil⟩

theorem Sound.join (h : Sound w t) {f : Frame ℕ F} {now : Int}
    (hjoins : f.preambleLockTNs ≠ 0 → t.cluster.joins w f.preambleLockTNs = true) :
    Sound w ⟨f.joinCluster now t.cluster, t.merged ++ [f.observation now]⟩ := by
  have htainted : Sound w ⟨{ t.cluster with lowTrust := true }, t.merged⟩ :=
    ⟨h.stations, h.heard, h.best, h.bounds, h.spread⟩
  unfold Frame.joinCluster
  split
  next => exact htainted.merge hjoins
  next => exact h.merge hjoins

theorem sound_new (f : Frame ℕ F) (seq : ℕ) (now : Int) :
    Sound w ⟨(f.newCluster seq now).mergeObservation (f.observation now), [f.observation now]⟩ := by
  have hempty : Sound w ⟨f.newCluster seq now, []⟩ :=
    ⟨nodup_nil, fun _ hm => absurd hm not_mem_nil, fun _ ho => absurd ho not_mem_nil,
      .none rfl rfl, Nat.zero_le w⟩
  exact hempty.merge fun _ => Cluster.joins_of_no_locks hempty.bounds rfl _

omit [LinearOrder F] in
theorem snd_foldl_widen (os : List (Observation ℕ F)) (b : ℕ × ℕ) : (os.foldl widen b).2 =
    os.foldl (fun t o => if t < o.preambleLockTNs then o.preambleLockTNs else t) b.2 := by
  induction os generalizing b with
  | nil => rfl
  | cons o os ih =>
    rw [foldl_cons, foldl_cons, ih, widen]
    by_cases h0 : o.preambleLockTNs = 0 <;> simp [h0]

theorem snd_eq_of_bounded {ts : List ℕ} {b b' : ℕ × ℕ} (h : Bounded ts b) (h' : Bounded ts b') :
    b.2 = b'.2 := by
  cases h with
  | none hts hb =>
    cases h' with
    | none _ hb' => rw [hb, hb']
    | some hlo' => exact absurd (hts ▸ hlo') not_mem_nil
  | some hlo hhi hall =>
    cases h' with
    | none hts _ => exact absurd (hts ▸ hlo) not_mem_nil
    | some _ hhi' hall' => exact le_antisymm (hall' _ hhi).2 (hall _ hhi').2

theorem Sound.times (h : Sound w t) :
    (toClusterObservationRecord t.cluster).clusterTimeNs = eventTimeNs t.cluster := by
  have hlatest : latestLockTNs t.cluster.observations = t.cluster.maxPreambleLockTNs := by
    rw [latestLockTNs, ← snd_foldl_widen _ (0, 0)]
    exact snd_eq_of_bounded (bounded_foldl_widen _) h.bounds
  simp only [toClusterObservationRecord, eventTimeNs, hlatest]

end Clusters

/-! ## The store -/

section Store

variable {F : Type*} {rows : List (ClusterObservationRecord F)}

theorem putUint64_injective : Function.Injective putUint64 := by
  intro t t' h
  simp only [putUint64, map_cons, map_nil, cons.injEq, and_true,
    ← BitVec.toNat_inj, BitVec.extractLsb'_toNat, Nat.shiftRight_eq_div_pow] at h
  obtain ⟨h56, h48, h40, h32, h24, h16, h8, h0⟩ := h
  -- one byte after the other, from the highest
  have hstep (i : ℕ) (htop : t.toNat / 2 ^ (i + 8) = t'.toNat / 2 ^ (i + 8))
      (hbyte : t.toNat / 2 ^ i % 2 ^ 8 = t'.toNat / 2 ^ i % 2 ^ 8) :
      t.toNat / 2 ^ i = t'.toNat / 2 ^ i := by
    rw [pow_add, ← Nat.div_div_eq_div_mul, ← Nat.div_div_eq_div_mul] at htop
    rw [← Nat.div_add_mod (t.toNat / 2 ^ i) (2 ^ 8), htop, hbyte, Nat.div_add_mod]
  have hnone : t.toNat / 2 ^ (56 + 8) = t'.toNat / 2 ^ (56 + 8) := by
    rw [Nat.div_eq_of_lt t.isLt, Nat.div_eq_of_lt t'.isLt]
  have hall := hstep 0 (hstep 8 (hstep 16 (hstep 24 (hstep 32 (hstep 40 (hstep 48
    (hstep 56 hnone h56) h48) h40) h32) h24) h16) h8) h0
  rw [pow_zero, Nat.div_one, Nat.div_one] at hall
  exact BitVec.eq_of_toNat_eq hall

theorem clusterObsKey_inj {t t' : BitVec 64} {a a' : List Byte} {n n' : ℕ} :
    clusterObsKey t a n = clusterObsKey t' a' n' ↔ t = t' ∧ clusterKey a n = clusterKey a' n' := by
  have hsplit (t : BitVec 64) (a : List Byte) (n : ℕ) :
      clusterObsKey t a n = putUint64 t ++ (ascii "|" ++ clusterKey a n) := by
    simp [clusterObsKey, clusterKey]
  rw [hsplit, hsplit]
  constructor
  · intro h
    obtain ⟨ht, hrest⟩ := append_inj h rfl
    exact ⟨putUint64_injective ht, append_cancel_left hrest⟩
  · rintro ⟨rfl, hkey⟩
    rw [hkey]

theorem nodup_write (h : (rows.map ClusterObservationRecord.key).Nodup)
    (rec : ClusterObservationRecord F) :
    ((writeClusterObservation rows rec).map ClusterObservationRecord.key).Nodup := by
  rw [writeClusterObservation, map_append, map_singleton]
  refine (h.sublist (filter_sublist.map _)).append (nodup_singleton _) ?_
  simp [disjoint_singleton]

theorem mem_writes {olds recs : List (ClusterObservationRecord F)}
    (hkeys : ((olds ++ recs).map ClusterObservationRecord.key).Nodup) (holds : ∀ r ∈ olds, r ∈ rows) :
    ∀ r ∈ olds ++ recs, r ∈ recs.foldl writeClusterObservation rows := by
  induction recs generalizing olds rows with
  | nil => simpa using holds
  | cons rec recs ih =>
    have hstep : olds ++ rec :: recs = (olds ++ [rec]) ++ recs := by simp
    rw [hstep] at hkeys ⊢
    refine ih hkeys fun r hr => ?_
    rw [writeClusterObservation, mem_append]
    rcases mem_append.mp hr with hold | hlast
    · refine .inl (mem_filter.mpr ⟨holds r hold, ?_⟩)
      rw [map_append, map_append] at hkeys
      have hne := (nodup_append.mp (nodup_append.mp hkeys).1).2.2
      simpa using hne r.key (mem_map_of_mem hold) rec.key (by simp)
    · exact .inr hlast

theorem find_of_mem (h : (rows.map ClusterObservationRecord.key).Nodup) {r : ClusterObservationRecord F}
    (hr : r ∈ rows) :
    findClusterObservation rows r.clusterTimeNs r.fromId r.packetId r.emissionSeq = some r := by
  unfold findClusterObservation readClusterObservationsRange
  cases hfind : (rows.filter _).find? _ with
  | none =>
    have hnone := find?_eq_none.mp hfind r (mem_filter.mpr ⟨hr, by simp⟩)
    simp at hnone
  | some r' =>
    obtain ⟨hr', htime⟩ := mem_filter.mp (mem_of_find?_eq_some hfind)
    have hids := find?_some hfind
    simp only [decide_eq_true_eq] at htime hids
    have hkey : r'.key = r.key := clusterObsKey_inj.mpr
      ⟨BitVec.le_antisymm htime.2 htime.1, by rw [hids.1, hids.2.1]⟩
    rw [inj_on_of_nodup_map h hr' hr hkey]

end Store

/-! ## Runs -/

section Runs

variable {F : Type*}

def Tracked.packet (t : Tracked F) : List Byte :=
  clusterKey t.cluster.frame.fromId t.cluster.frame.packetId

def Tracked.name (t : Tracked F) : List Byte × ℕ := (t.packet, t.cluster.emissionSeq)

/-- The clusters `l` of packet `k` in the pool, the next one being numbered `n`. -/
structure InPlay [LinearOrder F] (w : ℕ) (flushed : List (Tracked F)) (k : List Byte)
    (l : List (Tracked F)) (n : ℕ) : Prop where
  sound : ∀ t ∈ l, Sound w t ∧ t.packet = k ∧ t.cluster.emissionSeq < n
  apart : (l.map Tracked.name).Nodup
  across : ∀ t ∈ l, t.name ∉ flushed.map Tracked.name

structure Inv [LinearOrder F] (w : ℕ) (s : Loop F) : Prop where
  inPlay : ∀ k, InPlay w s.flushed k (s.pending k) (s.nextEmissionSeq k)
  flushed : ∀ t ∈ s.flushed, Sound w t ∧ t.cluster.emissionSeq < s.nextEmissionSeq t.packet
  gone : (s.flushed.map Tracked.name).Nodup
  rows : (s.store.map ClusterObservationRecord.key).Nodup

variable {l : List (Tracked F)} {g : Tracked F → Tracked F} {i : ℕ} {t : Tracked F}

theorem map_name_modify (hg : ∀ t, (g t).name = t.name) (i : ℕ) :
    (l.modify i g).map Tracked.name = l.map Tracked.name := by
  refine ext_getElem? fun j => ?_
  by_cases hij : i = j <;> simp [hij, comp_def, hg]

theorem mem_modify (h : t ∈ l.modify i g) : t ∈ l ∨ ∃ t₀, l[i]? = some t₀ ∧ t = g t₀ := by
  obtain ⟨j, hj⟩ := mem_iff_getElem?.mp h
  rw [getElem?_modify] at hj
  obtain ⟨t₀, ht₀, heq⟩ := Option.map_eq_some_iff.mp hj
  by_cases hij : i = j
  · rw [if_pos hij] at heq
    exact .inr ⟨t₀, hij ▸ ht₀, heq.symm⟩
  · rw [if_neg hij] at heq
    exact .inl (heq ▸ mem_of_getElem? ht₀)

theorem joins_of_pick {f : Frame ℕ F} {w : ℕ}
    (hpick : pickCluster (l.map Tracked.cluster) f w = some i) (ht : l[i]? = some t)
    (hne : f.preambleLockTNs ≠ 0) : t.cluster.joins w f.preambleLockTNs = true := by
  rw [pickCluster, if_pos hne] at hpick
  obtain ⟨hlt, hjoins, -⟩ := findIdx?_eq_some_iff_getElem.mp hpick
  obtain ⟨hlt', rfl⟩ := List.getElem?_eq_some_iff.mp ht
  simpa using hjoins

variable [LinearOrder F] {w : ℕ} {s : Loop F}

theorem name_join (f : Frame ℕ F) (now : Int) (t : Tracked F) (ms : List (Observation ℕ F)) :
    (⟨f.joinCluster now t.cluster, ms⟩ : Tracked F).name = t.name := by
  unfold Frame.joinCluster Cluster.mergeObservation
  split <;> split <;> rfl

theorem Inv.update (h : Inv w s) {key : List Byte} {n : ℕ} (hn : s.nextEmissionSeq key ≤ n)
    (hl : InPlay w s.flushed key l n) : Inv w { s with
      pending := update s.pending key l
      nextEmissionSeq := update s.nextEmissionSeq key n } := by
  refine ⟨fun k => ?_, fun t ht => ⟨(h.flushed t ht).1, ?_⟩, h.gone, h.rows⟩
  · by_cases hk : k = key
    · subst hk
      simpa using hl
    · simpa [hk] using h.inPlay k
  · have hlt := (h.flushed t ht).2
    by_cases hk : t.packet = key
    · simp only [hk, update_self] at hlt ⊢
      omega
    · simpa [hk] using hlt

theorem inv_frame (h : Inv w s) (f : Frame ℕ F) (now : Int) : Inv w (s.frame w f now) := by
  unfold Loop.frame
  split
  next => exact h
  next =>
    dsimp only
    generalize hkey : clusterKey f.fromId f.packetId = key
    have hplay := h.inPlay key
    split
    next i hpick =>
      set g : Tracked F → Tracked F := fun t =>
        ⟨f.joinCluster now t.cluster, t.merged ++ [f.observation now]⟩
      have hg (t : Tracked F) : (g t).name = t.name := name_join f now t _
      have hmap := map_name_modify (l := s.pending key) hg i
      have hnew := h.update (n := s.nextEmissionSeq key) (l := (s.pending key).modify i g) le_rfl
        ⟨fun t ht => ?_, hmap ▸ hplay.apart, fun t ht => ?_⟩
      · rwa [update_eq_self] at hnew
      · rcases mem_modify ht with hold | ⟨t₀, ht₀, rfl⟩
        · exact hplay.sound t hold
        · obtain ⟨hsound, hpacket, hseq⟩ := hplay.sound t₀ (mem_of_getElem? ht₀)
          obtain ⟨hp, hs⟩ := Prod.mk.inj (hg t₀)
          exact ⟨hsound.join (joins_of_pick hpick ht₀), hp.trans hpacket, hs.trans_lt hseq⟩
      · have hname : t.name ∈ (s.pending key).map Tracked.name := hmap ▸ mem_map_of_mem ht
        obtain ⟨t₁, ht₁, heq⟩ := mem_map.mp hname
        exact heq ▸ hplay.across t₁ ht₁
    next hnone =>
      generalize hn : s.nextEmissionSeq key = n at hplay
      set new : Tracked F :=
        ⟨(f.newCluster n now).mergeObservation (f.observation now), [f.observation now]⟩
      have hname : new.name = (key, n) := by
        rw [← hkey]
        rfl
      -- every number of the packet so far is smaller
      have hfresh (t : Tracked F) (hlt : t.packet = key → t.cluster.emissionSeq < n) :
          t.name ≠ (key, n) := by
        intro heq
        obtain ⟨hp, hs⟩ := Prod.mk.inj heq
        exact (hlt hp).ne hs
      refine h.update (by omega) ⟨fun t ht => ?_, ?_, fun t ht => ?_⟩
      · rcases mem_append.mp ht with hold | hlast
        · obtain ⟨hsound, hpacket, hseq⟩ := hplay.sound t hold
          exact ⟨hsound, hpacket, hseq.trans (Nat.lt_succ_self n)⟩
        · rw [mem_singleton.mp hlast]
          exact ⟨sound_new f n now, hkey, Nat.lt_succ_self n⟩
      · rw [map_append, map_singleton, hname]
        refine hplay.apart.append (nodup_singleton _) (disjoint_singleton.mpr ?_)
        intro hmem
        obtain ⟨t, ht, heq⟩ := mem_map.mp hmem
        exact hfresh t (fun _ => (hplay.sound t ht).2.2) heq
      · rcases mem_append.mp ht with hold | hlast
        · exact hplay.across t hold
        · rw [mem_singleton.mp hlast, hname]
          intro hmem
          obtain ⟨t, ht, heq⟩ := mem_map.mp hmem
          exact hfresh t (fun hp => hn ▸ hp ▸ (h.flushed t ht).2) heq

variable {window now : Int} {sortByFirstSeen : List (Tracked F) → List (Tracked F)}
  {keys : List (List Byte)}

omit [LinearOrder F] in
theorem mem_ready (hsort : ∀ l, (sortByFirstSeen l).Perm l) :
    t ∈ s.ready window sortByFirstSeen now keys ↔
      ∃ k ∈ keys, t ∈ s.pending k ∧ window < now - t.cluster.firstSeen := by
  simp [Loop.ready, (hsort _).mem_iff]

theorem Inv.eq_of_name (h : Inv w s) {k k' : List Byte} {t' : Tracked F} (ht : t ∈ s.pending k)
    (ht' : t' ∈ s.pending k') (hname : t.name = t'.name) : k = k' ∧ t = t' := by
  obtain ⟨-, rfl, -⟩ := (h.inPlay k).sound t ht
  obtain ⟨-, rfl, -⟩ := (h.inPlay k').sound t' ht'
  have hk : t.packet = t'.packet := congrArg Prod.fst hname
  exact ⟨hk, inj_on_of_nodup_map (h.inPlay _).apart ht (hk ▸ ht') hname⟩

theorem inv_tick (hsort : ∀ l, (sortByFirstSeen l).Perm l) (h : Inv w s) :
    Inv w (s.tick window sortByFirstSeen now keys) := by
  have hkept : ∀ {k : List Byte} {t : Tracked F},
      t ∈ (s.tick window sortByFirstSeen now keys).pending k →
        t ∈ s.pending k ∧ (k ∈ keys → ¬window < now - t.cluster.firstSeen) := by
    intro k t ht
    unfold Loop.tick at ht
    dsimp only at ht
    split at ht
    next =>
      obtain ⟨hmem, hyoung⟩ := mem_filter.mp ht
      exact ⟨hmem, fun _ => of_decide_eq_true hyoung⟩
    next hk => exact ⟨ht, fun h => absurd h hk⟩
  refine ⟨fun k => ⟨fun t ht => (h.inPlay k).sound t (hkept ht).1, ?_, fun t ht => ?_⟩, ?_, ?_, ?_⟩
  · show (((if k ∈ keys then _ else _) : List (Tracked F)).map Tracked.name).Nodup
    split
    next => exact (h.inPlay k).apart.sublist (filter_sublist.map _)
    next => exact (h.inPlay k).apart
  · show t.name ∉ (s.flushed ++ s.ready window sortByFirstSeen now keys).map Tracked.name
    rw [map_append, mem_append]
    rintro (hold | hnew)
    · exact (h.inPlay k).across t (hkept ht).1 hold
    · obtain ⟨d, hd, hname⟩ := mem_map.mp hnew
      obtain ⟨k', hk', hd, hold⟩ := (mem_ready hsort).mp hd
      obtain ⟨rfl, rfl⟩ := h.eq_of_name hd (hkept ht).1 hname
      exact (hkept ht).2 hk' hold
  · intro t ht
    rcases mem_append.mp ht with hold | hnew
    · exact h.flushed t hold
    · obtain ⟨k, -, hmem, -⟩ := (mem_ready hsort).mp hnew
      obtain ⟨hsound, rfl, hseq⟩ := (h.inPlay k).sound t hmem
      exact ⟨hsound, hseq⟩
  · show ((s.flushed ++ s.ready window sortByFirstSeen now keys).map Tracked.name).Nodup
    rw [map_append]
    refine h.gone.append ?_ ?_
    · rw [Loop.ready, ((hsort _).map _).nodup_iff, map_flatMap, nodup_flatMap]
      refine ⟨fun k _ => (h.inPlay k).apart.sublist (filter_sublist.map _), ?_⟩
      refine (nodup_dedup keys).imp fun hne => ?_
      intro name hmem hmem'
      obtain ⟨t, ht, rfl⟩ := mem_map.mp hmem
      obtain ⟨t', ht', hname⟩ := mem_map.mp hmem'
      exact hne (h.eq_of_name (mem_of_mem_filter ht) (mem_of_mem_filter ht') hname.symm).1
    · intro name hold hnew
      obtain ⟨t, ht, rfl⟩ := mem_map.mp hnew
      obtain ⟨k, -, hmem, -⟩ := (mem_ready hsort).mp ht
      exact (h.inPlay k).across t hmem hold
  · exact foldlRecOn (motive := fun rows : List _ => (rows.map ClusterObservationRecord.key).Nodup) _ _
      h.rows fun _ hrows rec _ => nodup_write hrows rec

def Loop.start (rows : List (ClusterObservationRecord F)) : Loop F := { store := rows }

theorem inv_start {rows : List (ClusterObservationRecord F)}
    (hrows : (rows.map ClusterObservationRecord.key).Nodup) : Inv w (Loop.start rows) :=
  ⟨fun _ => ⟨fun _ ht => absurd ht not_mem_nil, nodup_nil,
    fun _ ht => absurd ht not_mem_nil⟩, fun _ ht => absurd ht not_mem_nil, nodup_nil,
    hrows⟩

theorem inv_step (window : Int) (hsort : ∀ l, (sortByFirstSeen l).Perm l) (h : Inv w s)
    (e : Event F) : Inv w (s.step w window sortByFirstSeen e) := by
  cases e with
  | frame f now => exact inv_frame h f now
  | tick now keys => exact inv_tick hsort h

/-- **Clusters.** After every sequence of frames and ticks, a cluster has one observation per
station, the best of those merged into it, bounds that are the extremes of its locks, no further
apart than the window, and one time for its row and its fix. -/
theorem clusters_sound (w : ℕ) (window : Int) (hsort : ∀ l, (sortByFirstSeen l).Perm l)
    (rows : List (ClusterObservationRecord F))
    (hrows : (rows.map ClusterObservationRecord.key).Nodup) (events : List (Event F)) (t : Tracked F)
    (ht : t ∈ (run (Loop.step w window sortByFirstSeen) (.start rows) events).flushed ∨
      ∃ k, t ∈ (run (Loop.step w window sortByFirstSeen) (.start rows) events).pending k) :
    Sound w t ∧ (toClusterObservationRecord t.cluster).clusterTimeNs = eventTimeNs t.cluster := by
  have hinv := run_invariant (I := Inv w) (fun s e h => inv_step window hsort h e) (inv_start hrows)
    events
  have hsound : Sound w t := by
    rcases ht with hflushed | ⟨k, hpending⟩
    · exact (hinv.flushed t hflushed).1
    · exact ((hinv.inPlay k).sound t hpending).1
  exact ⟨hsound, hsound.times⟩

theorem frame_frame (w : ℕ) (s : Loop F) (f : Frame ℕ F) (now : Int) :
    (s.frame w f now).store = s.store ∧ (s.frame w f now).flushed = s.flushed := by
  unfold Loop.frame
  split
  next => exact ⟨rfl, rfl⟩
  next =>
    dsimp only
    split <;> exact ⟨rfl, rfl⟩

def Kept (s : Loop F) : Prop :=
  ∀ t ∈ s.flushed, findClusterObservation s.store
    (toClusterObservationRecord t.cluster).clusterTimeNs t.cluster.frame.fromId
    t.cluster.frame.packetId t.cluster.emissionSeq = some (toClusterObservationRecord t.cluster)

def Fresh (window : Int) (sortByFirstSeen : List (Tracked F) → List (Tracked F)) (s : Loop F) :
    Event F → Prop
  | .frame _ _ => True
  | .tick now keys => (s.flushed ++ s.ready window sortByFirstSeen now keys).Pairwise fun a b =>
      ¬(a.packet = b.packet ∧ eventTimeNs a.cluster = eventTimeNs b.cluster)

instance [DecidableEq F] (s : Loop F) : Decidable (Kept s) := List.decidableBAll _ _

instance (s : Loop F) : (e : Event F) → Decidable (Fresh window sortByFirstSeen s e)
  | .frame _ _ => isTrue trivial
  | .tick _ _ => inferInstanceAs (Decidable (List.Pairwise _ _))

theorem Sound.key_inj {a b : Tracked F} (ha : Sound w a) (hb : Sound w b) :
    (toClusterObservationRecord a.cluster).key = (toClusterObservationRecord b.cluster).key ↔
      a.packet = b.packet ∧ eventTimeNs a.cluster = eventTimeNs b.cluster := by
  rw [ClusterObservationRecord.key, ClusterObservationRecord.key, clusterObsKey_inj, ha.times,
    hb.times]
  exact and_comm

/-- **Evidence.** Throughout a run every flushed cluster is found again as it was flushed, exactly
when no tick flushes a cluster of a packet that has the event time of another. -/
theorem evidence_kept_iff (w : ℕ) (window : Int) (hsort : ∀ l, (sortByFirstSeen l).Perm l)
    (rows : List (ClusterObservationRecord F))
    (hrows : (rows.map ClusterObservationRecord.key).Nodup) (events : List (Event F)) :
    (∀ before, before <+: events →
      Kept (run (Loop.step w window sortByFirstSeen) (.start rows) before)) ↔
    Along (Loop.step w window sortByFirstSeen) (Fresh window sortByFirstSeen) (.start rows) events := by
  refine forall_prefix_iff_along
    (I := fun s => Inv w s ∧ ∀ t ∈ s.flushed, toClusterObservationRecord t.cluster ∈ s.store)
    (fun s h t ht => find_of_mem h.1.rows (h.2 t ht)) ?_ ?_
    ⟨inv_start hrows, fun _ ht => absurd ht not_mem_nil⟩ events
  · rintro s e ⟨hinv, hstored⟩ hfresh
    have hinv' := inv_step window hsort hinv e
    refine ⟨hinv', ?_⟩
    cases e with
    | frame f now =>
      obtain ⟨hstore, hflushed⟩ := frame_frame w s f now
      rw [Loop.step, hstore, hflushed]
      exact hstored
    | tick now keys =>
      have hkeys : ((s.flushed ++ s.ready window sortByFirstSeen now keys).map fun t =>
          (toClusterObservationRecord t.cluster).key).Nodup := by
        refine pairwise_map.mpr (hfresh.imp_of_mem fun ha hb hne heq => hne ?_)
        exact ((hinv'.flushed _ ha).1.key_inj (hinv'.flushed _ hb).1).mp heq
      have hrows' : ∀ r ∈ s.flushed.map (fun t => toClusterObservationRecord t.cluster) ++
          (s.ready window sortByFirstSeen now keys).map (fun t => toClusterObservationRecord t.cluster),
          r ∈ _ := mem_writes (by rwa [← map_append, map_map]) (by simpa using hstored)
      intro t ht
      refine hrows' _ ?_
      rw [← map_append]
      exact mem_map_of_mem ht
  · rintro s e ⟨hinv, -⟩ hstale hkept
    have hinv' := inv_step window hsort hinv e
    cases e with
    | frame f now => exact hstale trivial
    | tick now keys =>
      refine hstale ((pairwise_map.mp hinv'.gone).imp_of_mem fun ha hb hname hsame => hname ?_)
      -- both rows are there under one key, so they are one row
      have hrow {t} (ht) := mem_of_mem_filter (mem_of_find?_eq_some (hkept t ht))
      have heq := inj_on_of_nodup_map hinv'.rows (hrow ha) (hrow hb)
        (((hinv'.flushed _ ha).1.key_inj (hinv'.flushed _ hb).1).mpr hsame)
      exact Prod.ext hsame.1 (congrArg ClusterObservationRecord.emissionSeq heq)

end Runs

def byFirstSeen : List (Tracked ℕ) → List (Tracked ℕ) :=
  List.insertionSort fun a b => a.cluster.firstSeen ≤ b.cluster.firstSeen

def afterEvents (events : List (Event ℕ)) : Loop ℕ :=
  run (Loop.step 200000000 5000000000 byFirstSeen) (.start []) events

/-- The ticker, when the pool has packet 42 of node `!aa`. -/
def tickAt (now : Int) : Event ℕ := .tick now [clusterKey (ascii "!aa") 42]

def heardAt (now : Int) (station : String) (lockTNs snrDb : ℕ) : Event ℕ :=
  .frame (heardBy station lockTNs snrDb).1 now

def twoStations : List (Event ℕ) :=
  [heardAt 0 "a" 1000000000 10, heardAt 1 "b" 1000005000 8, heardAt 2 "a" 1000000900 12,
    tickAt 6000000000]

theorem clusters_sound_twoStations : (afterEvents twoStations).flushed.length = 1 ∧
    ∀ t ∈ (afterEvents twoStations).flushed, Sound 200000000 t ∧
      (toClusterObservationRecord t.cluster).clusterTimeNs = eventTimeNs t.cluster :=
  ⟨by decide +kernel, fun t ht => clusters_sound _ _ (List.perm_insertionSort _) [] List.nodup_nil _ t
    (.inl ht)⟩

theorem evidence_kept_iff_twoStations : (afterEvents twoStations).flushed.length = 1 ∧
    ∀ before, before <+: twoStations → Kept (afterEvents before) :=
  ⟨by decide +kernel, (evidence_kept_iff _ _ (List.perm_insertionSort _) [] List.nodup_nil _).mpr
    (by decide +kernel)⟩

def lateCopy : List (Event ℕ) :=
  [heardAt 0 "a" 1000000000 10, tickAt 6000000000, heardAt 7000000000 "b" 1000000000 8,
    tickAt 13000000000]

def grownTogether : List (Event ℕ) :=
  [heardAt 0 "a" 1000000000 1, heardAt 1 "b" 1200000000 5, heardAt 2 "c" 1200000001 5,
    heardAt 3 "a" 1200000000 9, heardAt 4 "d" 1200000001 5, tickAt 6000000000]

theorem evidence_overwritten : ¬Kept (afterEvents lateCopy) ∧ ¬Kept (afterEvents grownTogether) := by
  decide +kernel

end MeshcoreSniffer.Fusion.Evidence
